/-
  BettingHelper.Lib.Keyed — one automaton run per key over a single list.

  `scan` walks a list whose elements each belong to a key and keeps one automaton state
  for every key (a dict of states). It accepts exactly when the automaton accepts each
  key's own elements (`scan_isSome_iff`), so the order in which different keys are mixed
  is of no account: sorting the list by a key-major order changes nothing as long as
  each key's elements were in order before (`filter_insertionSort`).
-/

import Mathlib

namespace BettingHelper.Lib.Keyed

variable {α κ σ ν : Type} [DecidableEq κ]

/-- Walk `l` with one state for each key, from the states `f`. -/
def scan (key : α → κ) (next : σ → α → Option σ) : (κ → σ) → List α → Option (κ → σ)
  | f, [] => some f
  | f, a :: l =>
    match next (f (key a)) a with
    | some s => scan key next (Function.update f (key a) s) l
    | none => none

/-- One key's automaton over its own elements. -/
def run (next : σ → α → Option σ) : σ → List α → Option σ
  | s, [] => some s
  | s, a :: l =>
    match next s a with
    | some t => run next t l
    | none => none

theorem run_append (next : σ → α → Option σ) (l m : List α) (s : σ) :
    run next s (l ++ m) = (run next s l).bind fun t => run next t m := by
  induction l generalizing s with
  | nil => rfl
  | cons a l ih =>
    simp only [List.cons_append, run]
    cases next s a with
    | none => rfl
    | some t => exact ih t

/-- An automaton that can do what another does accepts what it accepts. -/
theorem run_mono {next next' : σ → α → Option σ} (hn : ∀ s a t, next s a = some t → next' s a = some t) {l : List α}
    {s t : σ} (hr : run next s l = some t) : run next' s l = some t := by
  induction l generalizing s with
  | nil => exact hr
  | cons a l ih =>
    unfold run at hr ⊢
    cases ha : next s a with
    | none =>
      rw [ha] at hr
      cases hr
    | some u =>
      rw [ha] at hr
      rw [hn s a u ha]
      exact ih hr

theorem scan_isSome_iff (key : α → κ) (next : σ → α → Option σ) (l : List α) (f : κ → σ) :
    (scan key next f l).isSome ↔ ∀ k, (run next (f k) (l.filter (key · = k))).isSome := by
  induction l generalizing f with
  | nil => simp [scan, run]
  | cons a l ih =>
    simp only [scan]
    cases ha : next (f (key a)) a with
    | none =>
      simp only [Option.isSome_none, Bool.false_eq_true, false_iff, not_forall]
      exact ⟨key a, by simp [run, ha]⟩
    | some s =>
      rw [ih]
      refine forall_congr' fun k => ?_
      by_cases e : key a = k
      · subst e
        simp [run, ha]
      · simp [e, Function.update_of_ne (Ne.symm e)]

/-! ## Sorting -/

theorem filter_insertionSort [LinearOrder ν] (ord : α → ν) (p : α → Bool) {l : List α}
    (h : (l.filter p).Pairwise fun a b => ord a < ord b) :
    (l.insertionSort fun a b => ord a ≤ ord b).filter p = l.filter p := by
  have hperm : ((l.insertionSort fun a b => ord a ≤ ord b).filter p).Perm (l.filter p) :=
    (List.perm_insertionSort _ l).filter p
  have htotal : Std.Total fun a b : α => ord a ≤ ord b := ⟨fun a b => le_total (ord a) (ord b)⟩
  have htrans : IsTrans α fun a b : α => ord a ≤ ord b := ⟨fun _ _ _ => le_trans⟩
  have hsorted : ((l.insertionSort fun a b => ord a ≤ ord b).filter p).Pairwise fun a b => ord a ≤ ord b :=
    (List.pairwise_insertionSort _ l).filter p
  refine List.Perm.eq_of_pairwise ?_ hsorted (h.imp le_of_lt) hperm
  intro a b ha hb hab hba
  -- two members of one rank are one element, since the key's own elements ascend strictly
  by_contra hne
  rcases (List.pairwise_iff_getElem.mp h) with hlt
  obtain ⟨i, hi, rfl⟩ := List.mem_iff_getElem.mp (hperm.subset ha)
  obtain ⟨j, hj, rfl⟩ := List.mem_iff_getElem.mp hb
  rcases Nat.lt_trichotomy i j with hij | hij | hij
  · exact absurd (hlt i j hi hj hij) (not_lt.mpr hba)
  · subst hij; exact hne rfl
  · exact absurd (hlt j i hj hi hij) (not_lt.mpr hab)

end BettingHelper.Lib.Keyed
