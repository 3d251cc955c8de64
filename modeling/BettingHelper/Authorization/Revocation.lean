/-
  BettingHelper.Authorization.Revocation — whether a record is revoked by the ledger supplied
  with it (`_is_revoked`).

  Proved (`revoked_sound`): a state is reported valid only of a complete ledger, and a record is
  revoked by it iff a revocation in effect names it. So a record that is revoked stays revoked,
  at later times and by longer ledgers.
-/

import BettingHelper.Authorization.Records
import BettingHelper.Lib.PyInt

namespace BettingHelper.Authorization

open BettingHelper.Lib BettingHelper.Lib.Json

/-- The object has exactly these keys. -/
def hasKeys (v : Doc) (names : List String) : Bool :=
  match v with
  | .obj l => l.all (fun m => m.1 ∈ names.map text) && names.all fun n => text n ∈ l.map (·.1)
  | _ => false

def genesisHash (h : Host) (ledgerId : Text) : Text :=
  text (hex (h.sha256 (encode (text "HYBRID-DISCOVERY/v6.2/REVOCATION-LEDGER-GENESIS/v1") ++ [0] ++ encode ledgerId)))

def checkpointAt (ledgerId : Text) (sequence : Nat) (head : Text) : Doc :=
  record [("ledger_id", .str ledgerId), ("sequence", .str (decimal sequence)), ("head_hash", .str head)]

/-- `candidate` is the record of the sequence in the ledger, after the head `previous`. -/
def linked (h : Host) (target : Doc) (ledgerId : Text) (sequence : Nat) (previous : Text) (candidate checkpoint : Doc) : Bool :=
  dictGet candidate "record_type" = str "RevocationRecord" && dictGet candidate "ledger_id" = .str ledgerId &&
    dictGet candidate "revocation_sequence" = .str (decimal sequence) &&
    h.eq (dictGet candidate "previous_revocation_hash") (if sequence = 1 then .null else .str previous) &&
    h.eq checkpoint (checkpointAt ledgerId (sequence - 1) previous) &&
    h.eq (dictGet candidate "pack_bindings") (dictGet target "pack_bindings") &&
    h.eq (dictGet candidate "implementation_bindings") (dictGet target "implementation_bindings")

/-- The revocation is of the record's content hash, its serial or its key. -/
def revokes (h : Host) (candidate target : Doc) : Bool :=
  h.eq (dictGet candidate "revoked_content_hash") (dictGet target "content_hash") ||
    h.eq (dictGet candidate "revoked_serial") (dictGet target "serial") ||
    h.eq (dictGet candidate "revoked_key_id") (dictGet target "issuer_key_id")

section Ledger

variable (h : Host) (trustMode : Text) (keys : Keys)

/-- The loop over the records: the head after them, and whether one revokes the target. -/
def followLedger (target : Doc) (ledgerId : Text) (now : Int) : Nat → Text → Bool → List Doc → Except PyError (Option (Text × Bool))
  | _, previous, revoked, [] => .ok (some (previous, revoked))
  | sequence, previous, revoked, value :: rest => do
    let candidate ← asObject value
    match dictGet candidate "revocation_checkpoint" with
    | .obj l =>
      if linked h target ledgerId sequence previous candidate (.obj l) then do
        let valid ← recordMechanismValid h trustMode keys candidate
        if valid then do
          let c ← getItem candidate "content_hash"
          let head ← asString c
          let e ← getItem candidate "effective_at"
          let effective ← instantOf e
          followLedger target ledgerId now (sequence + 1) head (revoked || (effective ≤ now && revokes h candidate target)) rest
        else .ok none
      else .ok none
    | _ => .ok none

/-- `int` of a text, under a `try`. It refuses more than 4300 digits. -/
def sequenceOf : Doc → Option Int
  | .str s => if (s.filter fun c => (decimalDigit c).isSome).length ≤ 4300 then pyInt s else none
  | _ => none

/-- What the loop starts from. -/
structure LedgerState where
  ledgerId : Text
  records : List Doc
  /-- `required["head_hash"]` -/
  head : Doc

/-- The records, if they are as many as the required checkpoint says, and the target was signed
at the beginning of the ledger. -/
def ledgerRecords (state required signed ledger : Doc) (requiredSequence : Int) : Except PyError (Option LedgerState) := do
  let ledgerId ← asString ledger
  require (ledgerId.all (· < 0x80)) .value
  let signedHead ← getItem signed "head_hash"
  if signedHead ≠ .str (genesisHash h ledgerId) then .ok none
  else do
    let l ← getItem state "signed_revocation_records"
    let records ← asList l
    if (records.length : Int) ≠ requiredSequence then .ok none
    else do
      let head ← getItem required "head_hash"
      return some ⟨ledgerId, records, head⟩

/-- The checks before the loop. -/
def ledgerState (target context : Doc) : Except PyError (Option LedgerState) :=
  let state := dictGet context "revocation_state"
  if !hasKeys state ["required_revocation_checkpoint", "signed_revocation_records"] then .ok none
  else do
    let r ← getItem state "required_revocation_checkpoint"
    let required ← asObject r
    let s ← getItem target "revocation_checkpoint"
    let signed ← asObject s
    if !hasKeys required ["ledger_id", "sequence", "head_hash"] then .ok none
    else do
      let ledger ← getItem required "ledger_id"
      let signedLedger ← getItem signed "ledger_id"
      if !h.eq ledger signedLedger then .ok none
      else do
        let a ← getItem signed "sequence"
        let b ← getItem required "sequence"
        match sequenceOf a, sequenceOf b with
        | some signedSequence, some requiredSequence =>
          if signedSequence ≠ 0 ∨ requiredSequence < signedSequence then .ok none
          else ledgerRecords h state required signed ledger requiredSequence
        | _, _ => .ok none

/-- `_is_revoked`: whether the record is revoked, and whether the state is valid. -/
def isRevoked (target context : Doc) (now : Int) : Except PyError (Bool × Bool) := do
  let state ← ledgerState h target context
  match state with
  | none => return (false, false)
  | some state => do
    let followed ← followLedger h trustMode keys target state.ledgerId now 1 (genesisHash h state.ledgerId) false state.records
    match followed with
    | none => return (false, false)
    | some (head, revoked) => if state.head = .str head then return (revoked, true) else return (false, false)

end Ledger

/-! ## Complete ledgers -/

/-- `required["…"]` of a context. -/
def requiredOf (context : Doc) (k : String) : Doc :=
  dictGet (dictGet (dictGet context "revocation_state") "required_revocation_checkpoint") k

/-- A revocation at its place in a ledger: bound to what the target is bound to, and valid in itself. -/
structure Placed (h : Host) (trustMode : Text) (keys : Keys) (target : Doc) (ledgerId : Text) (sequence : Nat) (previous : Text)
    (candidate : Doc) (head : Text) : Prop where
  record_type : dictGet candidate "record_type" = str "RevocationRecord"
  ledger_id : dictGet candidate "ledger_id" = .str ledgerId
  revocation_sequence : dictGet candidate "revocation_sequence" = .str (decimal sequence)
  previous_hash : dictGet candidate "previous_revocation_hash" = if sequence = 1 then .null else .str previous
  checkpoint : h.eq (dictGet candidate "revocation_checkpoint") (checkpointAt ledgerId (sequence - 1) previous) = true
  pack : h.eq (dictGet candidate "pack_bindings") (dictGet target "pack_bindings") = true
  implementation : h.eq (dictGet candidate "implementation_bindings") (dictGet target "implementation_bindings") = true
  mechanism : recordMechanismValid h trustMode keys candidate = .ok true
  content_hash : dictGet candidate "content_hash" = .str head

/-- Records numbered from `sequence`, each naming the hash of the one before it, from one hash to another. -/
inductive Chain (h : Host) (trustMode : Text) (keys : Keys) (target : Doc) (ledgerId : Text) : Nat → Text → List Doc → Text → Prop
  | nil (sequence : Nat) (head : Text) : Chain h trustMode keys target ledgerId sequence head [] head
  | cons {sequence : Nat} {previous next head : Text} {candidate : Doc} {rest : List Doc} :
      Placed h trustMode keys target ledgerId sequence previous candidate next →
      Chain h trustMode keys target ledgerId (sequence + 1) next rest head →
      Chain h trustMode keys target ledgerId sequence previous (candidate :: rest) head

/-- The records of a context are the whole of its ledger. -/
structure Complete (h : Host) (trustMode : Text) (keys : Keys) (target context : Doc) (ledgerId : Text) (records : List Doc) : Prop where
  signed_records : dictGet (dictGet context "revocation_state") "signed_revocation_records" = .arr records
  ledger_id : requiredOf context "ledger_id" = .str ledgerId
  count : sequenceOf (requiredOf context "sequence") = some (records.length : Int)
  chain : ∃ head, requiredOf context "head_hash" = .str head ∧
    Chain h trustMode keys target ledgerId 1 (genesisHash h ledgerId) records head

/-- The revocation names the content hash, the serial or the key of the target. -/
def Names (candidate target : Doc) : Prop :=
  ∃ a ∈ [("revoked_content_hash", "content_hash"), ("revoked_serial", "serial"), ("revoked_key_id", "issuer_key_id")], ∃ t,
    item candidate a.1 = some (.str t) ∧ item target a.2 = some (.str t)

/-- The revocation is in effect. -/
def InEffect (candidate : Doc) (now : Int) : Prop := ∃ i, instantOf (dictGet candidate "effective_at") = .ok i ∧ i ≤ now

/-! ## One record of the ledger -/

section Steps

variable {h : Host} {trustMode : Text} {keys : Keys} {target : Doc} {ledgerId : Text} {now : Int}

theorem eq_null {v : Doc} : h.eq v .null = true ↔ v = .null := by
  rw [Host.eq]
  cases v with
  | float x => cases hw : h.hashing.whole x <;> simp [equal, integral, hw]
  | _ => simp [equal, integral]

theorem eq_object {v : Doc} {m : List (Text × Doc)} (hv : h.eq v (.obj m) = true) : ∃ l, v = .obj l := by
  rw [Host.eq] at hv
  cases v with
  | obj l => exact ⟨l, rfl⟩
  | float x => cases hw : h.hashing.whole x <;> simp [equal, integral, hw] at hv
  | _ => simp [equal, integral] at hv

theorem eq_previous {v : Doc} {sequence : Nat} {previous : Text} :
    h.eq v (if sequence = 1 then .null else .str previous) = true ↔ v = if sequence = 1 then .null else .str previous := by
  by_cases hs : sequence = 1
  · rw [if_pos hs]
    exact eq_null
  · rw [if_neg hs]
    exact equal_str

theorem mechanism_schema {record : Doc} (hv : recordMechanismValid h trustMode keys record = .ok true) : h.schemaValid record = true := by
  cases hs : h.schemaValid record with
  | true => rfl
  | false =>
    rw [recordMechanismValid, hs] at hv
    cases hv

/-- An absent member of the target equals no member of a revocation: the schema has it name all three. -/
theorem eq_names {candidate : Doc} (hv : h.schemaValid candidate = true) (ht : dictGet candidate "record_type" = str "RevocationRecord")
    {k : String} (hk : k ∈ ["revoked_content_hash", "revoked_serial", "revoked_key_id"]) (j : String) :
    h.eq (dictGet candidate k) (dictGet target j) = true ↔ ∃ t, item candidate k = some (.str t) ∧ item target j = some (.str t) := by
  obtain ⟨t, hi⟩ := h.schema_revocation candidate hv ht k hk
  have hd : dictGet candidate k = .str t := by rw [dictGet, hi, Option.getD_some]
  rw [hd, Host.eq, equal_str_left]
  constructor
  · intro hj
    exact ⟨t, hi, item_of_get hj⟩
  · rintro ⟨u, hu, hj⟩
    rw [hi] at hu
    cases hu
    rw [dictGet, hj, Option.getD_some]

theorem revokes_iff {candidate : Doc} (hv : h.schemaValid candidate = true)
    (ht : dictGet candidate "record_type" = str "RevocationRecord") : revokes h candidate target = true ↔ Names candidate target := by
  have hc := @eq_names _ target _ hv ht "revoked_content_hash" (.head _) "content_hash"
  have hs := @eq_names _ target _ hv ht "revoked_serial" (.tail _ (.head _)) "serial"
  have hk := @eq_names _ target _ hv ht "revoked_key_id" (.tail _ (.tail _ (.head _))) "issuer_key_id"
  simp only [revokes, Names, Bool.or_eq_true, hc, hs, hk, List.exists_mem_cons_iff, List.not_mem_nil, false_and, exists_false,
    or_false, or_assoc]

/-- A record is passed iff it is in its place; the head is then its content hash. -/
theorem followLedger_cons {sequence : Nat} {previous : Text} {revoked : Bool} {candidate : Doc} {rest : List Doc} {r : Text × Bool} :
    followLedger h trustMode keys target ledgerId now sequence previous revoked (candidate :: rest) = .ok (some r) ↔
      ∃ next effective, Placed h trustMode keys target ledgerId sequence previous candidate next ∧
        instantOf (dictGet candidate "effective_at") = .ok effective ∧
        followLedger h trustMode keys target ledgerId now (sequence + 1) next
          (revoked || (effective ≤ now && revokes h candidate target)) rest = .ok (some r) := by
  constructor
  · intro hf
    rw [followLedger, bind_ok] at hf
    obtain ⟨w, hw, hf⟩ := hf
    obtain ⟨rfl, -⟩ := asObject_ok hw
    cases hc : dictGet w "revocation_checkpoint" with
    | obj l =>
      simp only [hc] at hf
      cases hl : linked h target ledgerId sequence previous w (.obj l) with
      | false =>
        rw [hl] at hf
        cases hf
      | true =>
        rw [hl, if_pos rfl, bind_ok] at hf
        obtain ⟨valid, hm, hf⟩ := hf
        cases valid with
        | false => cases hf
        | true =>
          rw [if_pos rfl, bind_ok] at hf
          obtain ⟨c, hi, hf⟩ := hf
          obtain ⟨head, hh, hf⟩ := bind_ok.mp hf
          obtain ⟨e, he, hf⟩ := bind_ok.mp hf
          obtain ⟨effective, hn, hf⟩ := bind_ok.mp hf
          simp only [linked, Bool.and_eq_true, decide_eq_true_eq, eq_previous] at hl
          obtain ⟨⟨⟨⟨⟨⟨hr, hg⟩, hs⟩, hp⟩, hk⟩, hb⟩, hj⟩ := hl
          refine ⟨head, effective, ⟨hr, hg, hs, hp, hc ▸ hk, hb, hj, hm, ?_⟩, ?_, hf⟩
          · rw [getItem_get hi, asString_ok hh]
          · rw [getItem_get he, hn]
    | _ =>
      simp only [hc] at hf
      cases hf
  · rintro ⟨next, effective, hp, he, hf⟩
    obtain ⟨m, rfl⟩ := object_of_item (item_of_get hp.record_type)
    obtain ⟨l, hc⟩ := eq_object hp.checkpoint
    have hk := hp.checkpoint
    rw [hc] at hk
    have hl : linked h target ledgerId sequence previous (.obj m) (.obj l) = true := by
      simp only [linked, Bool.and_eq_true, decide_eq_true_eq, eq_previous]
      exact ⟨⟨⟨⟨⟨⟨hp.record_type, hp.ledger_id⟩, hp.revocation_sequence⟩, hp.previous_hash⟩, hk⟩, hp.pack⟩, hp.implementation⟩
    obtain ⟨x, hx⟩ : ∃ x, item (.obj m : Doc) "effective_at" = some x := by
      cases hx : item (.obj m : Doc) "effective_at" with
      | none =>
        rw [dictGet, hx] at he
        cases he
      | some x => exact ⟨x, rfl⟩
    rw [dictGet, hx, Option.getD_some] at he
    rw [followLedger, asObject]
    simp only [hc, hl, hp.mechanism, getItem_of_item (item_of_get hp.content_hash), getItem_of_item hx, he, asString, if_true, bind,
      Except.bind]
    exact hf

/-! ## The ledger -/

/-- The records passed are a chain, and the flag is that one of them revokes the target. -/
theorem followLedger_chain {records : List Doc} {sequence : Nat} {previous head : Text} {revoked b : Bool}
    (hf : followLedger h trustMode keys target ledgerId now sequence previous revoked records = .ok (some (head, b))) :
    Chain h trustMode keys target ledgerId sequence previous records head ∧
      (b = true ↔ revoked = true ∨ ∃ c ∈ records, InEffect c now ∧ Names c target) := by
  induction records generalizing sequence previous revoked with
  | nil =>
    rw [followLedger] at hf
    cases hf
    exact ⟨.nil _ _, by simp⟩
  | cons candidate rest ih =>
    obtain ⟨next, effective, hp, he, hr⟩ := followLedger_cons.mp hf
    obtain ⟨hchain, hb⟩ := ih hr
    have heffect : InEffect candidate now ↔ effective ≤ now := by
      constructor
      · rintro ⟨i, hi, hle⟩
        rw [he] at hi
        cases hi
        exact hle
      · intro hle
        exact ⟨effective, he, hle⟩
    have hnames := @revokes_iff _ target _ (mechanism_schema hp.mechanism) hp.record_type
    refine ⟨.cons hp hchain, ?_⟩
    rw [hb, Bool.or_eq_true, Bool.and_eq_true, decide_eq_true_eq, hnames, ← heffect, List.exists_mem_cons_iff, or_assoc]

/-- The time is read for the flag alone. -/
theorem followLedger_anytime {records : List Doc} {sequence : Nat} {previous head : Text} {revoked b : Bool}
    (hf : followLedger h trustMode keys target ledgerId now sequence previous revoked records = .ok (some (head, b)))
    (now' : Int) (revoked' : Bool) :
    ∃ b', followLedger h trustMode keys target ledgerId now' sequence previous revoked' records = .ok (some (head, b')) := by
  induction records generalizing sequence previous revoked revoked' with
  | nil =>
    rw [followLedger] at hf
    cases hf
    exact ⟨revoked', rfl⟩
  | cons candidate rest ih =>
    obtain ⟨next, effective, hp, he, hr⟩ := followLedger_cons.mp hf
    obtain ⟨b', hb'⟩ := ih hr (revoked' || (effective ≤ now' && revokes h candidate target))
    exact ⟨b', followLedger_cons.mpr ⟨next, effective, hp, he, hb'⟩⟩

theorem ledgerRecords_ok {state required signed ledger : Doc} {requiredSequence : Int} {s : LedgerState}
    (hs : ledgerRecords h state required signed ledger requiredSequence = .ok (some s)) :
    ledger = .str s.ledgerId ∧ dictGet state "signed_revocation_records" = .arr s.records ∧
      (s.records.length : Int) = requiredSequence ∧ dictGet required "head_hash" = s.head := by
  rw [ledgerRecords, bind_ok] at hs
  obtain ⟨ledgerId, hl, hs⟩ := hs
  rw [require_bind_ok] at hs
  obtain ⟨signedHead, -, hs⟩ := bind_ok.mp hs.2
  by_cases hg : signedHead ≠ .str (genesisHash h ledgerId)
  · rw [if_pos hg] at hs
    cases hs
  · rw [if_neg hg, bind_ok] at hs
    obtain ⟨l, hi, hs⟩ := hs
    obtain ⟨records, hr, hs⟩ := bind_ok.mp hs
    by_cases hn : (records.length : Int) ≠ requiredSequence
    · rw [if_pos hn] at hs
      cases hs
    · rw [if_neg hn, bind_ok] at hs
      obtain ⟨head, hh, hs⟩ := hs
      cases hs
      exact ⟨asString_ok hl, by rw [getItem_get hi, asList_ok hr], not_not.mp hn, getItem_get hh⟩

theorem ledgerState_ok {context : Doc} {s : LedgerState} (hs : ledgerState h target context = .ok (some s)) :
    dictGet (dictGet context "revocation_state") "signed_revocation_records" = .arr s.records ∧
      requiredOf context "ledger_id" = .str s.ledgerId ∧ sequenceOf (requiredOf context "sequence") = some (s.records.length : Int) ∧
      requiredOf context "head_hash" = s.head := by
  rw [ledgerState] at hs
  by_cases hk : (!hasKeys (dictGet context "revocation_state") ["required_revocation_checkpoint", "signed_revocation_records"]) = true
  · rw [if_pos hk] at hs
    cases hs
  rw [if_neg hk, bind_ok] at hs
  obtain ⟨r, hr, hs⟩ := hs
  rw [bind_ok] at hs
  obtain ⟨required, hq, hs⟩ := hs
  obtain ⟨rfl, -⟩ := asObject_ok hq
  rw [bind_ok] at hs
  obtain ⟨s', -, hs⟩ := hs
  rw [bind_ok] at hs
  obtain ⟨signed, -, hs⟩ := hs
  by_cases hj : (!hasKeys required ["ledger_id", "sequence", "head_hash"]) = true
  · rw [if_pos hj] at hs
    cases hs
  rw [if_neg hj, bind_ok] at hs
  obtain ⟨ledger, hl, hs⟩ := hs
  obtain ⟨signedLedger, -, hs⟩ := bind_ok.mp hs
  by_cases he : (!h.eq ledger signedLedger) = true
  · rw [if_pos he] at hs
    cases hs
  rw [if_neg he, bind_ok] at hs
  obtain ⟨a, -, hs⟩ := hs
  obtain ⟨b, hb, hs⟩ := bind_ok.mp hs
  cases hsa : sequenceOf a with
  | none =>
    simp only [hsa] at hs
    cases hs
  | some signedSequence =>
    cases hsb : sequenceOf b with
    | none =>
      simp only [hsa, hsb] at hs
      cases hs
    | some requiredSequence =>
      simp only [hsa, hsb] at hs
      by_cases hz : signedSequence ≠ 0 ∨ requiredSequence < signedSequence
      · rw [if_pos hz] at hs
        cases hs
      rw [if_neg hz] at hs
      obtain ⟨hledger, hrecords, hcount, hhead⟩ := ledgerRecords_ok hs
      have hrequired : ∀ k x, getItem required k = .ok x → requiredOf context k = x := by
        intro k x hx
        rw [requiredOf, getItem_get hr, getItem_get hx]
      refine ⟨hrecords, ?_, ?_, ?_⟩
      · rw [hrequired _ _ hl, hledger]
      · rw [hrequired _ _ hb, hsb, hcount]
      · rw [requiredOf, getItem_get hr, hhead]

theorem isRevoked_iff {context : Doc} {b : Bool} :
    isRevoked h trustMode keys target context now = .ok (b, true) ↔
      ∃ s head, ledgerState h target context = .ok (some s) ∧ s.head = .str head ∧
        followLedger h trustMode keys target s.ledgerId now 1 (genesisHash h s.ledgerId) false s.records = .ok (some (head, b)) := by
  constructor
  · intro hr
    rw [isRevoked, bind_ok] at hr
    obtain ⟨state, hs, hr⟩ := hr
    cases state with
    | none => cases hr
    | some s =>
      simp only [bind_ok] at hr
      obtain ⟨followed, hf, hr⟩ := hr
      cases followed with
      | none => cases hr
      | some r =>
        obtain ⟨head, revoked⟩ := r
        by_cases hh : s.head = .str head
        · simp only [if_pos hh] at hr
          cases hr
          exact ⟨s, head, hs, hh, hf⟩
        · simp only [if_neg hh] at hr
          cases hr
  · rintro ⟨s, head, hs, hh, hf⟩
    rw [isRevoked, hs]
    simp only [bind, Except.bind, hf, if_pos hh]
    rfl

end Steps

section Sound

variable (h : Host) (trustMode : Text) (keys : Keys) (target context : Doc) (now : Int) (b : Bool)

/-- A valid state is a complete ledger, the record is revoked by it iff a revocation in effect names
it, and it stays revoked: at every later time, and by every longer ledger. -/
theorem revoked_sound (hr : isRevoked h trustMode keys target context now = .ok (b, true)) :
    ∃ ledgerId records, Complete h trustMode keys target context ledgerId records ∧
      (b = true ↔ ∃ c ∈ records, InEffect c now ∧ Names c target) ∧
      (b = true → ∀ now', now ≤ now' → isRevoked h trustMode keys target context now' = .ok (true, true)) ∧
      (b = true → ∀ context' now' b' more, now ≤ now' →
        dictGet (dictGet context' "revocation_state") "signed_revocation_records" = .arr (records ++ more) →
        isRevoked h trustMode keys target context' now' = .ok (b', true) → b' = true) := by
  obtain ⟨s, head, hs, hh, hf⟩ := isRevoked_iff.mp hr
  obtain ⟨hrecords, hledger, hcount, hhead⟩ := ledgerState_ok hs
  obtain ⟨hchain, hb⟩ := followLedger_chain hf
  have hb : b = true ↔ ∃ c ∈ s.records, InEffect c now ∧ Names c target := by
    rw [hb]
    simp only [Bool.false_eq_true, false_or]
  -- what revokes at a time revokes at a later one
  have hlater : b = true → ∀ now', now ≤ now' → ∃ c ∈ s.records, InEffect c now' ∧ Names c target := by
    intro hbt now' hle
    obtain ⟨c, hc, ⟨i, hi, hin⟩, hn⟩ := hb.mp hbt
    exact ⟨c, hc, ⟨i, hi, hin.trans hle⟩, hn⟩
  refine ⟨s.ledgerId, s.records, ⟨hrecords, hledger, hcount, head, hhead.trans hh, hchain⟩, hb, ?_, ?_⟩
  · intro hbt now' hle
    obtain ⟨b', hf'⟩ := followLedger_anytime hf now' false
    have hb' : b' = true := (followLedger_chain hf').2.mpr (.inr (hlater hbt now' hle))
    exact isRevoked_iff.mpr ⟨s, head, hs, hh, hb' ▸ hf'⟩
  · intro hbt context' now' b' more hle hmore hr'
    obtain ⟨s', head', hs', hh', hf'⟩ := isRevoked_iff.mp hr'
    have hlist : s'.records = s.records ++ more := by
      have heq := (ledgerState_ok hs').1.symm.trans hmore
      injection heq
    obtain ⟨c, hc, hin, hn⟩ := hlater hbt now' hle
    refine (followLedger_chain hf').2.mpr (.inr ⟨c, ?_, hin, hn⟩)
    rw [hlist]
    exact List.mem_append_left _ hc

end Sound

/-! ## The revocation of the vectors -/

section Vector

def revocationRegistry : Doc := record [
  ("domain_validation_classes", .arr [record [("class_id", str "SCHEMA_GATED_SELF_HASH"), ("artifact_types", strs ["RevocationRecord"])]]),
  ("domains", .arr [record [("artifact_type", str "RevocationRecord"), ("domain", .str (Hashing.typeDomain (text "RevocationRecord"))),
    ("excluded_json_pointers", strs ["/content_hash", "/signature"])]]),
  ("schema_binding_groups", .arr [
    record [("artifact_types", strs ["RevocationRecord"]), ("required_excluded_json_pointers", strs ["/content_hash", "/signature"])]])]

def namesAll (r : Doc) : Bool := ["revoked_content_hash", "revoked_serial", "revoked_key_id"].all fun k =>
  match item r k with
  | some (.str _) => true
  | _ => false

def ledgerHost : Host where
  hashing := ⟨fun t => t.all (· < 0x80), fun v => some v.bytes, fun _ => 0⟩
  registryBytes := revocationRegistry.bytes
  sha256 b :=
    if (b.drop 23).head? = some 0x45 then 0xb861b7545e39caf552c29908ec2789ab4da35b40b774abc41067daabb708de5e#256
    else 0xccbe0e7a80cfffdcd587fcd76086a4d19bef3d35032bface80d937586c7eb650#256
  schemaValid := namesAll
  verify _ _ _ := true
  schema_revocation := by
    intro r hr _ k hk
    have := List.all_eq_true.mp hr k hk
    cases hi : item r k with
    | none => simp [hi] at this
    | some v =>
      cases v with
      | str t => exact ⟨t, rfl⟩
      | _ => simp [hi] at this

theorem revocation_parse : Hashing.parseRegistry ledgerHost.hashing revocationRegistry.bytes = .ok revocationRegistry := by
  have ho : Ordered revocationRegistry := by
    refine ordered_record ?_
    simp [strs, Ordered, OrderedItems, ordered_record, str]
  have ha : Ascii revocationRegistry := by
    refine ascii_record ?_
    simp [strs, Ascii, AsciiItems, ascii_record, str, Hashing.typeDomain, text]
  have hp : Wire.parseStrictJson ledgerHost.hashing.nfc revocationRegistry.bytes = .ok revocationRegistry :=
    Wire.parseStrictJson_bytes (fun _ ht => ht) ha ho
  exact Hashing.parseRegistry_ok hp rfl

def packBindings : Doc := record [("final_pack_zip_sha256", str "aaaaaaaaaaaaaaaaaaaaaaaaaaaaaaaaaaaaaaaaaaaaaaaaaaaaaaaaaaaaaaaa"), ("pack_manifest_sha256", str "bbbbbbbbbbbbbbbbbbbbbbbbbbbbbbbbbbbbbbbbbbbbbbbbbbbbbbbbbbbbbbbb"), ("repo0_baseline_receipt_sha256", str "cccccccccccccccccccccccccccccccccccccccccccccccccccccccccccccccc"), ("repo0_git_commit_oid", str "dddddddddddddddddddddddddddddddddddddddd"), ("repo0_git_tree_oid", str "eeeeeeeeeeeeeeeeeeeeeeeeeeeeeeeeeeeeeeee"), ("repo0_tree_sha256", str "ffffffffffffffffffffffffffffffffffffffffffffffffffffffffffffffff")]

def implementationBindings : Doc := record [("implementation_build_hash", str "1111111111111111111111111111111111111111111111111111111111111111"), ("dependency_lock_hash", str "2222222222222222222222222222222222222222222222222222222222222222"), ("schema_vendor_hash", str "3333333333333333333333333333333333333333333333333333333333333333")]

def genesisCheckpoint : Doc := record [("ledger_id", str "00000000-0000-4000-8000-000000000011"), ("sequence", str "0"), ("head_hash", str "b861b7545e39caf552c29908ec2789ab4da35b40b774abc41067daabb708de5e")]

/-- The revocation of the vectors. -/
def signedMembers : List (String × Doc) := [("schema_version", str "revocation-record/v1"), ("record_type", str "RevocationRecord"), ("record_id", str "00000000-0000-4000-8000-000000000026"), ("issuer", str "issuer:rfc8032-test-vector-1"), ("issuer_key_id", str "key:ed25519:21fe31dfa154a261626bf854046fd2271b7bed4b6abe45aa58877ef47f9721b9"), ("signature_algorithm", str "Ed25519"), ("pack_bindings", packBindings), ("implementation_bindings", implementationBindings), ("issued_at", str "2030-01-01T00:00:00Z"), ("not_before", str "2030-01-01T00:00:00Z"), ("expires_at", str "2030-01-01T00:30:00Z"), ("revocation_checkpoint", genesisCheckpoint), ("production_authority", str "NONE"), ("issuer_role", str "REVOCATION_AUTHORITY"), ("audience", str "hybrid-discovery:revocation-ledger:v1"), ("scope", str "APPEND_ONLY_REVOCATION"), ("serial", str "TEST-REVOCATION-0001"), ("nonce", str "FFFFFFFFFFFFFFFFFFFFFFFFFFFFFFFFFFFFFFFFFFF"), ("one_use", .bool false), ("consumed_before", str "NO_PRIVILEGED_ACTION"), ("ledger_id", str "00000000-0000-4000-8000-000000000011"), ("revocation_sequence", str "1"), ("previous_revocation_hash", .null), ("revoked_record_type", str "GateReceipt"), ("revoked_content_hash", str "2dd59af579fa66e578df58c17d24d0363b88f44450bac6d2c16cc1cb24083f30"), ("revoked_serial", str "TEST-GATE-0001"), ("revoked_key_id", str "key:ed25519:21fe31dfa154a261626bf854046fd2271b7bed4b6abe45aa58877ef47f9721b9"), ("effective_at", str "2030-01-01T00:01:00Z"), ("reason_code", str "OPERATOR_WITHDRAWAL"), ("content_hash", str "ccbe0e7a80cfffdcd587fcd76086a4d19bef3d35032bface80d937586c7eb650"), ("signature", str "HJNGEW9Jid5GbsUcc8zKGuQw4DlJf5QaDOY6d9JfYhg5BoyWRue81k3TV2_V6kTzlaIMwDYwuHECiqayDNEeAg")]

def signedRevocation : Doc := record signedMembers

theorem signed_item {k : String} {v : Doc} (i : Nat) (hi : signedMembers[i]? = some (k, v)) : item signedRevocation k = some v :=
  item_record (by decide) hi

def testKey : VerifierKey where
  publicKey := []
  issuers := [text "issuer:rfc8032-test-vector-1"]
  roles := [text "REVOCATION_AUTHORITY"]
  audiences := [text "hybrid-discovery:revocation-ledger:v1"]
  validFrom := 0
  validUntil := 100000000000000000
  active := false
  testOnly := true

def testKeys : Keys := [(text "key:ed25519:21fe31dfa154a261626bf854046fd2271b7bed4b6abe45aa58877ef47f9721b9", testKey)]

theorem new_year : instantOf (str "2030-01-01T00:00:00Z") = .ok 64029052800000000 ∧
    instantOf (str "2030-01-01T00:01:00Z") = .ok 64029052860000000 ∧ instantOf (str "2030-01-01T00:30:00Z") = .ok 64029054600000000 := by
  rw [← toOption_ok, ← toOption_ok, ← toOption_ok]
  simp only [instantOf, asString, str, DateTime.instant, String.toList_ofList]
  repeat rewrite [text_ofList]
  decide

theorem signed_preimage : ∃ b, Hashing.canonicalPreimage ledgerHost.hashing ledgerHost.registryBytes (text "RevocationRecord") signedRevocation = .ok b ∧
    ledgerHost.sha256 b = 0xccbe0e7a80cfffdcd587fcd76086a4d19bef3d35032bface80d937586c7eb650#256 := by
  have h : ((Hashing.canonicalPreimage ledgerHost.hashing ledgerHost.registryBytes (text "RevocationRecord") signedRevocation).toOption.map
      ledgerHost.sha256) = some 0xccbe0e7a80cfffdcd587fcd76086a4d19bef3d35032bface80d937586c7eb650#256 := by
    unfold Hashing.canonicalPreimage
    rw [show ledgerHost.registryBytes = revocationRegistry.bytes from rfl, revocation_parse]
    simp only [signedRevocation, signedMembers, packBindings, implementationBindings, genesisCheckpoint, str, record, List.map]
    repeat rewrite [text_ofList]
    decide
  obtain ⟨b, hb, hs⟩ := Option.map_eq_some_iff.mp h
  exact ⟨b, toOption_ok.mp hb, hs⟩



theorem signed_digest : dictGet signedRevocation "content_hash" =
    .str (text (hex 0xccbe0e7a80cfffdcd587fcd76086a4d19bef3d35032bface80d937586c7eb650#256)) := by
  rw [dictGet, signed_item 29 rfl, str, hex]
  rewrite [text_ofList, text_ofList]
  decide

theorem signed_hash : contentHash ledgerHost (text "RevocationRecord") signedRevocation =
    .ok (text (hex 0xccbe0e7a80cfffdcd587fcd76086a4d19bef3d35032bface80d937586c7eb650#256)) := by
  obtain ⟨b, hb, hs⟩ := signed_preimage
  rw [contentHash_ok hb, hs]

theorem signed_ordered : issuanceOrderIsValid signedRevocation = .ok true := by
  obtain ⟨hi, -, he⟩ := new_year
  rw [issuanceOrderIsValid]
  refine bind_ok.mpr ⟨_, getItem_of_item (signed_item 8 rfl), bind_ok.mpr ⟨_, hi, ?_⟩⟩
  refine bind_ok.mpr ⟨_, getItem_of_item (signed_item 9 rfl), bind_ok.mpr ⟨_, hi, ?_⟩⟩
  exact bind_ok.mpr ⟨_, getItem_of_item (signed_item 10 rfl), bind_ok.mpr ⟨_, he, rfl⟩⟩

theorem signed_signature : signatureIsValid ledgerHost signedRevocation [] = .ok true := by
  rw [← toOption_ok]
  simp only [signatureIsValid, getItem_of_item (signed_item 29 rfl), getItem_of_item (signed_item 30 rfl), str, asString, bind, Except.bind]
  repeat rewrite [text_ofList]
  decide

theorem signed_read : readMechanism ledgerHost testKeys signedRevocation = .ok ⟨text "RevocationRecord",
    text (hex 0xccbe0e7a80cfffdcd587fcd76086a4d19bef3d35032bface80d937586c7eb650#256), some testKey, 64029052800000000,
    text "REVOCATION_AUTHORITY", text "hybrid-discovery:revocation-ledger:v1"⟩ := by
  have hk : testKeys.lookup (text "key:ed25519:21fe31dfa154a261626bf854046fd2271b7bed4b6abe45aa58877ef47f9721b9") = some testKey :=
    List.lookup_cons_self
  rw [readMechanism, ← hk]
  refine bind_ok.mpr ⟨_, getItem_of_item (signed_item 1 rfl), bind_ok.mpr ⟨_, rfl, bind_ok.mpr ⟨_, signed_hash, ?_⟩⟩⟩
  refine bind_ok.mpr ⟨_, getItem_of_item (signed_item 4 rfl), bind_ok.mpr ⟨_, rfl, ?_⟩⟩
  refine bind_ok.mpr ⟨_, getItem_of_item (signed_item 8 rfl), bind_ok.mpr ⟨_, new_year.1, ?_⟩⟩
  refine bind_ok.mpr ⟨_, getItem_of_item (signed_item 13 rfl), bind_ok.mpr ⟨_, rfl, ?_⟩⟩
  exact bind_ok.mpr ⟨_, getItem_of_item (signed_item 14 rfl), bind_ok.mpr ⟨_, rfl, rfl⟩⟩

theorem signed_schema : ledgerHost.schemaValid signedRevocation = true := by
  simp only [ledgerHost, namesAll, List.all_cons, List.all_nil, signed_item 24 rfl, signed_item 25 rfl, signed_item 26 rfl, str, Bool.and_self]

theorem signed_mechanism : recordMechanismValid ledgerHost testTrustMode testKeys signedRevocation = .ok true := by
  have hissuer : dictGet signedRevocation "issuer" = .str (text "issuer:rfc8032-test-vector-1") := by
    rw [dictGet, signed_item 3 rfl, Option.getD_some, str]
  have hrole : ((rolesOf (text "RevocationRecord")).getD []).contains (text "REVOCATION_AUTHORITY") = true := by decide
  have haudience : audienceOf (text "RevocationRecord") = some (text "hybrid-discovery:revocation-ledger:v1") := by decide
  rw [mechanism_ok signed_schema signed_read rfl (by decide) signed_digest hrole (by simp [testKey]) (by simp [testKey, hissuer])
    (by simp [testKey]) haudience (by decide) (by decide) signed_ordered]
  exact signed_signature

theorem genesis_head : genesisHash ledgerHost (text "00000000-0000-4000-8000-000000000011") =
    text "b861b7545e39caf552c29908ec2789ab4da35b40b774abc41067daabb708de5e" := by
  have hs : ledgerHost.sha256 (encode (text "HYBRID-DISCOVERY/v6.2/REVOCATION-LEDGER-GENESIS/v1") ++ [0] ++
      encode (text "00000000-0000-4000-8000-000000000011")) = 0xb861b7545e39caf552c29908ec2789ab4da35b40b774abc41067daabb708de5e#256 := by
    decide
  rw [genesisHash, hs, hex]
  rewrite [text_ofList, text_ofList]
  decide

def targetMembers : List (String × Doc) := [
  ("content_hash", str "2dd59af579fa66e578df58c17d24d0363b88f44450bac6d2c16cc1cb24083f30"),
  ("implementation_bindings", implementationBindings), ("pack_bindings", packBindings), ("revocation_checkpoint", genesisCheckpoint)]

/-- Of the record the revocation names, the members `_is_revoked` reads. -/
def revokedTarget : Doc := record targetMembers

theorem target_item {k : String} {v : Doc} (i : Nat) (hi : targetMembers[i]? = some (k, v)) : item revokedTarget k = some v :=
  item_record (by decide) hi

/-- The ledger of the one revocation. -/
def revokedContext : Doc := record [("revocation_state", record [
  ("required_revocation_checkpoint", record [("head_hash", str "ccbe0e7a80cfffdcd587fcd76086a4d19bef3d35032bface80d937586c7eb650"),
    ("ledger_id", str "00000000-0000-4000-8000-000000000011"), ("sequence", str "1")]),
  ("signed_revocation_records", .arr [signedRevocation])])]

theorem revoked_state : ∃ s, ledgerState ledgerHost revokedTarget revokedContext = .ok (some s) ∧
    s.ledgerId = text "00000000-0000-4000-8000-000000000011" ∧
    s.head = str "ccbe0e7a80cfffdcd587fcd76086a4d19bef3d35032bface80d937586c7eb650" ∧ s.records = [signedRevocation] := by
  have h : (ledgerState ledgerHost revokedTarget revokedContext).toOption.map (·.map fun s => (s.ledgerId, s.head)) =
      some (some (text "00000000-0000-4000-8000-000000000011", str "ccbe0e7a80cfffdcd587fcd76086a4d19bef3d35032bface80d937586c7eb650")) := by
    decide
  obtain ⟨o, ho, hs⟩ := Option.map_eq_some_iff.mp h
  obtain ⟨s, rfl, hpair⟩ := Option.map_eq_some_iff.mp hs
  obtain ⟨hl, hh⟩ := Prod.mk.inj hpair
  have hr := (ledgerState_ok (toOption_ok.mp ho)).1
  rw [revokedContext, dictGet, dictGet, item_record (i := 0) (by decide) rfl, Option.getD_some,
    item_record (i := 1) (by decide) rfl, Option.getD_some] at hr
  injection hr with hr
  exact ⟨s, toOption_ok.mp ho, hl, hh, hr.symm⟩

theorem signed_placed : Placed ledgerHost testTrustMode testKeys revokedTarget (text "00000000-0000-4000-8000-000000000011") 1
    (genesisHash ledgerHost (text "00000000-0000-4000-8000-000000000011")) signedRevocation
    (text "ccbe0e7a80cfffdcd587fcd76086a4d19bef3d35032bface80d937586c7eb650") where
  record_type := by rw [dictGet, signed_item 1 rfl, Option.getD_some]
  ledger_id := by rw [dictGet, signed_item 20 rfl, Option.getD_some, str]
  revocation_sequence := by
    rw [dictGet, signed_item 21 rfl, Option.getD_some, str]
    decide
  previous_hash := by rw [dictGet, signed_item 22 rfl, Option.getD_some, if_pos rfl]
  checkpoint := by
    rw [dictGet, signed_item 11 rfl, Option.getD_some, genesis_head]
    simp only [genesisCheckpoint, checkpointAt, str, record, List.map]
    decide
  pack := by
    rw [dictGet, signed_item 6 rfl, dictGet, target_item 2 rfl, Option.getD_some]
    simp only [packBindings, str, record, List.map]
    repeat rewrite [text_ofList]
    decide
  implementation := by
    rw [dictGet, signed_item 7 rfl, dictGet, target_item 1 rfl, Option.getD_some]
    simp only [implementationBindings, str, record, List.map]
    repeat rewrite [text_ofList]
    decide
  mechanism := signed_mechanism
  content_hash := by rw [dictGet, signed_item 29 rfl, Option.getD_some, str]

theorem revoked_sound_one : ∃ ledgerId records,
    Complete ledgerHost testTrustMode testKeys revokedTarget revokedContext ledgerId records ∧
    ∃ c ∈ records, InEffect c 64029052860000000 ∧ Names c revokedTarget := by
  obtain ⟨s, hs, hl, hh, hr⟩ := revoked_state
  have hnames : revokes ledgerHost signedRevocation revokedTarget = true := by
    refine (revokes_iff signed_schema (by rw [dictGet, signed_item 1 rfl, Option.getD_some])).mpr ?_
    exact ⟨_, .head _, _, signed_item 24 rfl, target_item 0 rfl⟩
  have hf : followLedger ledgerHost testTrustMode testKeys revokedTarget s.ledgerId 64029052860000000 1
      (genesisHash ledgerHost s.ledgerId) false s.records =
      .ok (some (text "ccbe0e7a80cfffdcd587fcd76086a4d19bef3d35032bface80d937586c7eb650", true)) := by
    rw [hl, hr]
    refine followLedger_cons.mpr ⟨_, 64029052860000000, signed_placed, ?_, ?_⟩
    · rw [dictGet, signed_item 27 rfl]
      exact new_year.2.1
    · rw [followLedger, hnames]
      rfl
  have hrev := isRevoked_iff.mpr ⟨s, _, hs, hh, hf⟩
  obtain ⟨ledgerId, records, hcomplete, hb, -⟩ :=
    revoked_sound ledgerHost testTrustMode testKeys revokedTarget revokedContext 64029052860000000 true hrev
  exact ⟨ledgerId, records, hcomplete, hb.mp rfl⟩

end Vector

end BettingHelper.Authorization
