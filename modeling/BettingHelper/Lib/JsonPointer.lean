/-
  BettingHelper.Lib.JsonPointer — the reference tokens of a JSON pointer (RFC 6901).

  Proved (`replace_eq`): to replace every `~1` by `/`, and then every `~0` by `~`, is to read
  the escapes of a token from left to right.
-/

import BettingHelper.Lib.Json

namespace BettingHelper.Lib.JsonPointer

open BettingHelper.Lib.Json

def tilde : Nat := '~'.toNat

def slash : Nat := '/'.toNat

/-- `s.replace(ab, c)`, of two characters by one. -/
def replacePair (a b c : Nat) : Text → Text
  | x :: y :: r => if x = a ∧ y = b then c :: replacePair a b c r else x :: replacePair a b c (y :: r)
  | s => s

/-- `token.replace("~1", "/").replace("~0", "~")` -/
def decodeToken (s : Text) : Text := replacePair tilde '0'.toNat tilde (replacePair tilde '1'.toNat slash s)

/-- What a token refers to: its escapes read from left to right. -/
def reference : Text → Text
  | x :: y :: r =>
    if x = tilde ∧ y = '1'.toNat then slash :: reference r
    else if x = tilde ∧ y = '0'.toNat then tilde :: reference r
    else x :: reference (y :: r)
  | s => s

section Replace

variable {a b c : Nat}

theorem replacePair_other {x : Nat} (hx : x ≠ a) (s : Text) : replacePair a b c (x :: s) = x :: replacePair a b c s := by
  cases s with
  | nil => rfl
  | cons y r => simp [replacePair, hx]

/-- After the first of a pair comes what does not complete it. -/
theorem replacePair_lone {s : Text} (hs : s.head? ≠ some b) : replacePair a b c (a :: s) = a :: replacePair a b c s := by
  cases s with
  | nil => rfl
  | cons y r =>
    have hy : y ≠ b := fun h => hs (by rw [h]; rfl)
    simp [replacePair, hy]

theorem replacePair_head (x : Nat) (s : Text) :
    (replacePair a b c (x :: s)).head? = some x ∨ (replacePair a b c (x :: s)).head? = some c := by
  cases s with
  | nil => exact .inl rfl
  | cons y r =>
    by_cases h : x = a ∧ y = b
    · exact .inr (by simp [replacePair, h])
    · exact .inl (by simp [replacePair, h])

end Replace

theorem replace_eq (s : Text) : decodeToken s = reference s := by
  have h01 : '0'.toNat ≠ tilde := by decide
  have hsl : slash ≠ tilde := by decide
  -- a pair is taken at a time, so the induction is on the length
  induction hn : s.length using Nat.strong_induction_on generalizing s with
  | _ n ih =>
    rcases s with _ | ⟨x, _ | ⟨y, r⟩⟩
    · rfl
    · rfl
    have hr : decodeToken r = reference r := ih _ (by simp only [List.length_cons] at hn; omega) r rfl
    have hyr : decodeToken (y :: r) = reference (y :: r) := ih _ (by simp only [List.length_cons] at hn ⊢; omega) (y :: r) rfl
    by_cases h : x = tilde ∧ y = '1'.toNat
    · obtain ⟨rfl, rfl⟩ := h
      rw [decodeToken, replacePair, if_pos ⟨rfl, rfl⟩, replacePair_other hsl, reference, if_pos ⟨rfl, rfl⟩, ← hr]
      rfl
    by_cases h0 : x = tilde ∧ y = '0'.toNat
    · obtain ⟨rfl, rfl⟩ := h0
      rw [decodeToken, replacePair, if_neg h, replacePair_other h01, replacePair, if_pos ⟨rfl, rfl⟩, reference, if_neg h,
        if_pos ⟨rfl, rfl⟩, ← hr]
      rfl
    rw [reference, if_neg h, if_neg h0, ← hyr, decodeToken, replacePair, if_neg h]
    by_cases hx : x = tilde
    · subst hx
      refine replacePair_lone fun hh => ?_
      -- what follows the tilde is no `0`, before the first replacement and after it
      rcases replacePair_head (a := tilde) (b := '1'.toNat) (c := slash) y r with hy | hy
      · rw [hy] at hh
        exact h0 ⟨rfl, Option.some.inj hh⟩
      · rw [hy] at hh
        exact absurd (Option.some.inj hh) (by decide)
    · exact replacePair_other hx _

end BettingHelper.Lib.JsonPointer
