/-
  BettingHelper.Ingest.Sound — what holds of every ledger a run can reach, and that
  `validate_journal` accepts the tables of such a ledger (`Sound.tables_valid`).
-/

import BettingHelper.Ingest.Ledger

namespace BettingHelper.Ingest

open BettingHelper.Store BettingHelper.Lib

def confirmedAt (l : List Confirmation) (p : Position) : List Confirmation := l.filter (·.position = p)

def lastOf (l : List Confirmation) (p : Position) : Option Confirmation := (confirmedAt l p).getLast?

/-- Confirmations made one after another: each of a commit in the log, each past the last
    one of its position and naming it. -/
inductive Confirmed (log : List Commit) : List Confirmation → Prop
  | nil : Confirmed log []
  | snoc {l : List Confirmation} {a : Confirmation} : Confirmed log l →
      (∃ c ∈ log, c.key = a.position ∧ c.seq = a.sequence ∧ c.cursor = a.cursor) →
      a.previous = (lastOf l a.position).map (·.cursor) →
      (∀ p ∈ lastOf l a.position, p.sequence < a.sequence) → Confirmed log (l ++ [a])

structure Ledger.Sound (h : Hashes) (L : Ledger) : Prop where
  created : 0 ≤ L.createdAtUs
  firstGeneration : L.context.generation.value = 0
  linked : Chain.Linked h0 (chainStep h) L.log
  cursors : (L.log.map (·.cursor)).Nodup
  /-- Commits are made in the active generation only. -/
  keys : ∀ c ∈ L.log, c.key = L.position 0 ∨ (L.rupture.isSome ∧ c.key = L.position 1)
  /-- Late repairs lie in the gap. -/
  repairs : ∀ e ∈ L.entries, e.late → e.commit.key = L.position 0 ∧
    ∃ r ∈ L.rupture, r.cause = .missing ∧ r.highest < e.commit.seq ∧ e.commit.seq < r.sequence
  ruptured : ∀ r ∈ L.rupture, L.createdAtUs ≤ r.atUs ∧ r.digest ≠ L.identity h ∧
    r.highest = Chain.height L.log (L.position 0)
  /-- What the rupture was. -/
  caused : ∀ r ∈ L.rupture, match r.cause with
    | .missing => r.highest + 1 < r.sequence
    | .conflict existing _ => ∃ c ∈ L.log, c.key = L.position 0 ∧ c.seq = r.sequence ∧ c.cursor = existing
  confirmed : Confirmed L.log L.confirmations

namespace Ledger

variable {h : Hashes} {L : Ledger}

/-! ## The tables, read -/

theorem applied_tables : (L.tables h).applied = L.log.map fun c => Entry.raw ⟨c, false⟩ := by
  simp only [Db.applied, tables, log, List.filter_map, List.map_map]
  have hf : (fun e : Entry => !e.late) = fun e : Entry => decide (e.raw.disposition = .applied) := by
    funext e
    cases e with
    | mk c late => cases late <;> rfl
  rw [hf]
  refine List.map_congr_left fun e he => ?_
  have hd : e.late = false := by
    have := (List.mem_filter.mp he).2
    cases e with
    | mk c late => cases late <;> simp_all [Entry.raw]
  cases e with
  | mk c late => subst hd; rfl

theorem mem_log {c : Commit} : c ∈ L.log ↔ ⟨c, false⟩ ∈ L.entries := by
  simp only [log, List.mem_map, List.mem_filter, Bool.not_eq_true']
  constructor
  · rintro ⟨⟨d, late⟩, ⟨hm, rfl⟩, rfl⟩
    exact hm
  · exact fun hm => ⟨⟨c, false⟩, ⟨hm, rfl⟩, rfl⟩

/-- Rows made from the log, at one position. -/
theorem filter_rows {ρ : Type} (row : Commit → ρ) (pos : ρ → Position) (hpos : ∀ c, pos (row c) = c.key)
    (l : List Commit) (p : Position) :
    (l.map row).filter (fun r => decide (pos r = p)) = (Chain.chainOf l p).map row := by
  rw [List.filter_map]
  congr 1
  refine List.filter_congr fun c _ => ?_
  simp [hpos]

theorem find_row {ρ : Type} (row : Commit → ρ) (pos : ρ → Position) (num : ρ → Nat) (hpos : ∀ c, pos (row c) = c.key)
    (hnum : ∀ c, num (row c) = c.seq) (l : List Commit) (p : Position) (n : Nat) :
    (l.map row).find? (fun r => decide (pos r = p ∧ num r = n)) =
      (l.find? fun c => c.key = p ∧ c.seq = n).map row := by
  rw [List.find?_map]
  congr 2
  funext c
  simp [hpos, hnum]

theorem applicationAt_tables (p : Position) (n : Nat) :
    (L.tables h).applicationAt p n = (L.log.find? fun c => c.key = p ∧ c.seq = n).map application :=
  find_row application (·.position) (·.sequence) (fun _ => rfl) (fun _ => rfl) _ _ _

theorem revisionAt_tables (p : Position) (n : Nat) :
    (L.tables h).revisionAt p n = (L.log.find? fun c => c.key = p ∧ c.seq = n).map revision :=
  find_row revision (·.position) (·.sequence) (fun _ => rfl) (fun _ => rfl) _ _ _

theorem cursorAt_tables (p : Position) (n : Nat) :
    (L.tables h).cursorAt p n = (L.log.find? fun c => c.key = p ∧ c.seq = n).map reducer :=
  find_row reducer (·.position) (·.highestContiguousSequence) (fun _ => rfl) (fun _ => rfl) _ _ _

theorem ackAt_tables (p : Position) (n : Nat) :
    (L.tables h).ackAt p n = (L.log.find? fun c => c.key = p ∧ c.seq = n).map ack :=
  find_row ack (·.position) (·.highestContiguousSequence) (fun _ => rfl) (fun _ => rfl) _ _ _

theorem tables_linked (hs : L.Sound h) : (L.tables h).tablesLinked := by
  have hn := Chain.positions_nodup hs.linked
  refine ⟨?_, ?_, ?_, ?_, ?_⟩
  · rw [applied_tables]
    simp [tables]
  all_goals simpa [tables, List.map_map, Function.comp_def, application, revision, reducer, ack] using hn

/-! ## The durable chain is accepted -/

/-- One commit passes, after those before it. -/
theorem durableLink_commit (hs : L.Sound h) {c : Commit} (hc : c ∈ L.log) {n : Nat} {prior : Digest}
    (hn : c.seq = n + 1) (hp : c.prior = prior) (hx : c.cursor = chainStep h c.key c.seq c.payload c.prior) :
    durableLink h.cursorStep (L.tables h) (n, prior) (Entry.raw ⟨c, false⟩) = some (n + 1, c.cursor) := by
  have hf : L.log.find? (fun d => d.key = c.key ∧ d.seq = n + 1) = some c := hn ▸ Chain.find_link hs.linked hc
  have hdigest : h.cursorStep ⟨c.key, c.seq, c.payload.contentHash, prior⟩ = c.cursor := by rw [hx, hp]; rfl
  have hrev : (revision c).previousRevisionHash = if n = 0 then none else some prior := by
    simp [revision, hn, hp]
  simp only [durableLink, Entry.raw, hdigest, applicationAt_tables, revisionAt_tables, cursorAt_tables, ackAt_tables, hf,
    Option.map_some]
  rw [if_pos ⟨hn, hp, trivial⟩, if_pos]
  exact ⟨rfl, rfl, rfl, rfl, rfl, rfl, rfl, rfl, hp, hp, rfl, rfl, rfl, rfl, rfl, hn, hrev⟩

theorem run_durableLink (hs : L.Sound h) (p : Position) {l : List Commit} (hl : Chain.Linked h0 (chainStep h) l)
    (hsub : ∀ c ∈ l, c ∈ L.log) :
    Keyed.run (durableLink h.cursorStep (L.tables h)) (0, h0)
      ((Chain.chainOf l p).map fun c => Entry.raw ⟨c, false⟩) = some (Chain.height l p, Chain.head h0 l p) := by
  induction hl with
  | nil => rfl
  | @snoc l c _ hq hp hx ih =>
    have ih := ih fun d hd => hsub d (List.mem_append_left _ hd)
    by_cases e : c.key = p
    · subst e
      have hstep := durableLink_commit hs (hsub c (by simp)) hq hp hx
      rw [Chain.chainOf_snoc_same rfl, List.map_append, Keyed.run_append, ih, Option.bind_some,
        Chain.height_snoc_same rfl, Chain.head_snoc_same rfl]
      simp only [List.map_cons, List.map_nil, Keyed.run, hstep]
    · rw [Chain.chainOf_snoc_ne e, Chain.height_snoc_ne e, Chain.head_snoc_ne e]
      exact ih

/-! ## The confirmations are accepted -/

theorem filter_confirmations (l : List Confirmation) (p : Position) (o : AckOwner) :
    (l.map (·.row)).filter (fun r => decide ((r.position, r.owner) = (p, o))) =
      if o = .backend then (confirmedAt l p).map (·.row) else [] := by
  cases o with
  | backend =>
    rw [if_pos rfl, List.filter_map, confirmedAt]
    congr 1
    refine List.filter_congr fun a _ => ?_
    simp [Confirmation.row]
  | extension =>
    rw [if_neg (by simp)]
    simp [Confirmation.row]

theorem confirmedAt_snoc_same {l : List Confirmation} {a : Confirmation} {p : Position} (e : a.position = p) :
    confirmedAt (l ++ [a]) p = confirmedAt l p ++ [a] := by simp [confirmedAt, e]

theorem confirmedAt_snoc_ne {l : List Confirmation} {a : Confirmation} {p : Position} (e : a.position ≠ p) :
    confirmedAt (l ++ [a]) p = confirmedAt l p := by simp [confirmedAt, e]

theorem lastOf_snoc_same {l : List Confirmation} {a : Confirmation} {p : Position} (e : a.position = p) :
    lastOf (l ++ [a]) p = some a := by simp [lastOf, confirmedAt_snoc_same e]

theorem lastOf_snoc_ne {l : List Confirmation} {a : Confirmation} {p : Position} (e : a.position ≠ p) :
    lastOf (l ++ [a]) p = lastOf l p := by simp [lastOf, confirmedAt_snoc_ne e]

theorem Confirmed.pairwise {log : List Commit} {l : List Confirmation} (hc : Confirmed log l) (p : Position) :
    (confirmedAt l p).Pairwise fun a b => a.sequence < b.sequence := by
  induction hc with
  | nil => exact List.Pairwise.nil
  | @snoc l a _ _ _ hlt ih =>
    by_cases e : a.position = p
    · subst e
      rw [confirmedAt_snoc_same rfl, List.pairwise_append]
      refine ⟨ih, by simp, ?_⟩
      -- every earlier one is at most the last, and the last is below
      intro b hb d hd
      rw [List.mem_singleton.mp hd]
      obtain ⟨z, hz⟩ : ∃ z, lastOf l a.position = some z := by
        have : confirmedAt l a.position ≠ [] := List.ne_nil_of_mem hb
        exact ⟨_, List.getLast?_eq_some_getLast this⟩
      have hza := hlt z hz
      obtain ⟨m, hm⟩ := List.getLast?_eq_some_iff.mp hz
      rw [hm, List.pairwise_append] at ih
      rw [hm, List.mem_append, List.mem_singleton] at hb
      rcases hb with hb | rfl
      · have := ih.2.2 b hb z (by simp)
        omega
      · exact hza
    · rw [confirmedAt_snoc_ne e]
      exact ih

theorem ackLink_row (hs : L.Sound h) {a : Confirmation} {z : Option Confirmation}
    (hc : ∃ c ∈ L.log, c.key = a.position ∧ c.seq = a.sequence ∧ c.cursor = a.cursor)
    (hp : a.previous = z.map (·.cursor)) (hlt : ∀ p ∈ z, p.sequence < a.sequence) :
    ackLink (L.tables h) (z.map (·.row)) a.row = some (some a.row) := by
  obtain ⟨c, hm, hk, hq, hx⟩ := hc
  have hpos : a.sequence ≠ 0 := by
    have := (Chain.seq_bounds hs.linked hm).1
    omega
  have hf : (L.tables h).ackAt a.position a.sequence = some (ack c) := by
    rw [ackAt_tables, ← hk, ← hq, Chain.find_link hs.linked hm]
    rfl
  rw [ackLink, if_pos]
  refine ⟨rfl, ?_⟩
  have hn : ¬a.row.highestContiguousSequence = 0 := hpos
  unfold ackValid
  rw [if_neg hn]
  refine ⟨?_, ?_, ?_⟩
  · cases z <;> simp [Confirmation.row, hp]
  · cases z with
    | none => simp
    | some y => simpa [Confirmation.row] using hlt y rfl
  · change ((L.tables h).ackAt a.position a.sequence).map (·.cursorHash) = some a.cursor
    rw [hf, ← hx]
    rfl

theorem run_ackLink (hs : L.Sound h) (p : Position) {l : List Confirmation} (hl : Confirmed L.log l) :
    Keyed.run (ackLink (L.tables h)) none ((confirmedAt l p).map (·.row)) =
      some ((lastOf l p).map (·.row)) := by
  induction hl with
  | nil => rfl
  | @snoc l a _ hc hp hlt ih =>
    by_cases e : a.position = p
    · subst e
      have hstep := ackLink_row hs hc hp hlt
      rw [confirmedAt_snoc_same rfl, List.map_append, Keyed.run_append, ih, lastOf_snoc_same rfl]
      simp only [Option.bind_some, List.map_cons, List.map_nil, Keyed.run, hstep, Option.map_some]
    · rw [confirmedAt_snoc_ne e, lastOf_snoc_ne e]
      exact ih

/-- `validate_journal` accepts the tables of a sound ledger. -/
theorem Sound.tables_valid (hs : L.Sound h) : validateJournal h.cursorStep (L.tables h) = .ok () := by
  refine validateJournal_ok (tables_linked hs) ?_ ?_ ?_ ?_
  · intro p
    rw [applied_tables, filter_rows (fun c => Entry.raw ⟨c, false⟩) (·.position) fun _ => rfl]
    exact List.pairwise_map.mpr (Chain.seq_pairwise hs.linked p)
  · intro p
    rw [applied_tables, filter_rows (fun c => Entry.raw ⟨c, false⟩) (·.position) fun _ => rfl, run_durableLink hs p hs.linked fun _ hc => hc]
    rfl
  · rintro ⟨p, o⟩
    change (((L.confirmations.map (·.row)).filter _).Pairwise _)
    rw [filter_confirmations]
    split
    · exact List.pairwise_map.mpr (Confirmed.pairwise hs.confirmed p)
    · exact List.Pairwise.nil
  · rintro ⟨p, o⟩
    change (Keyed.run _ none ((L.confirmations.map (·.row)).filter _)).isSome
    rw [filter_confirmations]
    split
    · rw [run_ackLink hs p hs.confirmed]; rfl
    · rfl

end Ledger

end BettingHelper.Ingest
