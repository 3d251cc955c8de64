/-
  BettingHelper.Lib.FirstLeast — the first of the least elements of a list, and the loop that
  finds it by keeping the best so far.
-/

import Mathlib

namespace BettingHelper.Lib

variable {α β γ : Type} [LinearOrder β] [LinearOrder γ]

/-- No element has a lesser key, and none before it an equal one. -/
def FirstLeast (key : α → β) (l : List α) (m : α) : Prop :=
  ∃ pre post, l = pre ++ m :: post ∧ (∀ y ∈ pre, key m < key y) ∧ ∀ y ∈ post, key m ≤ key y

/-- The loop: the best so far gives way to what is less only. -/
def keepBest (less : α → α → Bool) (best : α) (l : List α) : α := l.foldl (fun best c => if less c best then c else best) best

namespace FirstLeast

variable {key : α → β} {l : List α} {m m' : α}

theorem mem (h : FirstLeast key l m) : m ∈ l := by
  obtain ⟨pre, post, rfl, -, -⟩ := h
  simp

theorem le (h : FirstLeast key l m) : ∀ y ∈ l, key m ≤ key y := by
  obtain ⟨pre, post, rfl, hpre, hpost⟩ := h
  intro y hy
  rcases List.mem_append.mp hy with hy | hy
  · exact (hpre y hy).le
  · cases hy with
    | head => exact le_refl _
    | tail _ hy => exact hpost y hy

theorem unique (h : FirstLeast key l m) (h' : FirstLeast key l m') : m = m' := by
  have hle := h.le m' h'.mem
  have hle' := h'.le m h.mem
  obtain ⟨pre, post, he, hpre, -⟩ := h
  obtain ⟨pre', post', he', hpre', -⟩ := h'
  rcases List.append_eq_append_iff.mp (he.symm.trans he') with ⟨a, rfl, ha⟩ | ⟨a, rfl, ha⟩
  · cases a with
    | nil => exact (List.cons.inj ha).1
    | cons b a =>
      obtain ⟨rfl, -⟩ := List.cons.inj ha
      exact absurd (hpre' m (by simp)) (not_lt.mpr hle)
  · cases a with
    | nil => exact (List.cons.inj ha).1.symm
    | cons b a =>
      obtain ⟨rfl, -⟩ := List.cons.inj ha
      exact absurd (hpre m' (by simp)) (not_lt.mpr hle')

/-- Under another key `m` is the first of the least too, where it is least and has no equals
but those it has under the first. -/
theorem transfer {key' : α → γ} (h : FirstLeast key l m) (hle : ∀ y ∈ l, key' m ≤ key' y)
    (heq : ∀ y ∈ l, key' y ≤ key' m → key y ≤ key m) : FirstLeast key' l m := by
  obtain ⟨pre, post, rfl, hpre, -⟩ := h
  refine ⟨pre, post, rfl, fun y hy => ?_, fun y hy => hle y (by simp [hy])⟩
  have hmem : y ∈ pre ++ m :: post := by simp [hy]
  refine lt_of_le_of_ne (hle y hmem) fun hk => ?_
  exact absurd (hpre y hy) (not_lt.mpr (heq y hmem hk.ge))

end FirstLeast

theorem keepBest_firstLeast {key : α → β} {less : α → α → Bool} (hless : ∀ a b, less a b = true ↔ key a < key b) (best : α)
    (l : List α) : FirstLeast key (best :: l) (keepBest less best l) := by
  induction l generalizing best with
  | nil => exact ⟨[], [], rfl, by simp, by simp⟩
  | cons c l ih =>
    by_cases hc : less c best = true
    · -- the next element is the best from now on
      have hlt := (hless c best).mp hc
      obtain ⟨pre, post, he, hpre, hpost⟩ := ih c
      have hk : keepBest less best (c :: l) = keepBest less c l := by simp [keepBest, hc]
      rw [hk]
      refine ⟨best :: pre, post, by rw [he, List.cons_append], ?_, hpost⟩
      intro y hy
      cases hy with
      | tail _ hy => exact hpre y hy
      | head =>
        have hle := FirstLeast.le ⟨pre, post, he, hpre, hpost⟩ c (.head _)
        exact lt_of_le_of_lt hle hlt
    · have hle : key best ≤ key c := not_lt.mp fun h => hc ((hless c best).mpr h)
      obtain ⟨pre, post, he, hpre, hpost⟩ := ih best
      have hk : keepBest less best (c :: l) = keepBest less best l := by simp [keepBest, hc]
      rw [hk]
      cases pre with
      | nil =>
        obtain ⟨hb, hl⟩ := List.cons.inj he
        refine ⟨[], c :: l, by rw [← hb]; rfl, by simp, ?_⟩
        intro y hy
        rw [← hb]
        cases hy with
        | head => exact hle
        | tail _ hy => exact hb ▸ hpost y (hl ▸ hy)
      | cons a pre =>
        obtain ⟨rfl, hl⟩ := List.cons.inj he
        refine ⟨best :: c :: pre, post, congrArg (best :: c :: ·) hl, ?_, hpost⟩
        intro y hy
        cases hy with
        | head => exact hpre best (.head _)
        | tail _ hy =>
          cases hy with
          | head => exact lt_of_lt_of_le (hpre best (.head _)) hle
          | tail _ hy => exact hpre y (.tail _ hy)

end BettingHelper.Lib
