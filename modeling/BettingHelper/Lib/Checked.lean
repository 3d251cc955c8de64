/-
  BettingHelper.Lib.Checked — functions that raise: what a result of theirs tells of the steps
  before it.
-/

import Mathlib

namespace BettingHelper.Lib

variable {ε α β : Type}

/-- Raises unless the condition holds. -/
def require (p : Bool) (e : ε) : Except ε Unit := if p then .ok () else .error e

theorem require_ok {p : Bool} {e : ε} {u : Unit} : require p e = .ok u ↔ p = true := by
  cases p <;> simp [require]

@[simp] theorem require_true (e : ε) : require true e = .ok () := rfl

@[simp] theorem require_false (e : ε) : require false e = .error e := rfl

theorem bind_ok {x : Except ε α} {f : α → Except ε β} {b : β} : (x >>= f) = .ok b ↔ ∃ a, x = .ok a ∧ f a = .ok b := by
  cases x with
  | error e => simp [bind, Except.bind]
  | ok a => simp [bind, Except.bind]

theorem toOption_ok {x : Except ε α} {a : α} : x.toOption = some a ↔ x = .ok a := by
  cases x with
  | error e => simp [Except.toOption]
  | ok b => simp [Except.toOption]

theorem pure_ok {a b : α} : (pure a : Except ε α) = .ok b ↔ a = b := by simp [pure, Except.pure]

/-- A check before the rest: it passed, and the rest gave the result. -/
theorem require_bind_ok {p : Bool} {e : ε} {x : Except ε β} {b : β} :
    (require p e >>= fun _ => x) = .ok b ↔ p = true ∧ x = .ok b := by
  cases p with
  | false => simp [bind, Except.bind]
  | true => simp [bind, Except.bind]

/-! ## Lists -/

theorem mapM_mem {f : α → Option β} : ∀ {l : List α} {m : List β}, l.mapM f = some m → ∀ b ∈ m, ∃ a ∈ l, f a = some b
  | [], m, h => by
    cases h
    exact fun b hb => absurd hb List.not_mem_nil
  | a :: l, m, h => by
    rw [List.mapM_cons] at h
    obtain ⟨c, hc, h⟩ := Option.bind_eq_some_iff.mp h
    obtain ⟨k, hk, h⟩ := Option.bind_eq_some_iff.mp h
    cases h
    intro b hb
    rcases List.mem_cons.mp hb with rfl | hb
    · exact ⟨a, List.mem_cons_self, hc⟩
    · obtain ⟨d, hd, hf⟩ := mapM_mem hk b hb
      exact ⟨d, List.mem_cons_of_mem _ hd, hf⟩

theorem mapM_map {γ : Type} {f : β → Option γ} {g : α → β} {k : α → γ} : ∀ {l : List α}, (∀ a ∈ l, f (g a) = some (k a)) →
    (l.map g).mapM f = some (l.map k)
  | [], _ => rfl
  | a :: l, h => by
    rw [List.map_cons, List.mapM_cons, h a List.mem_cons_self, mapM_map fun b hb => h b (List.mem_cons_of_mem _ hb)]
    rfl

end BettingHelper.Lib
