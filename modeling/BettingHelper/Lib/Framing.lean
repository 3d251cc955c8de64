/-
  BettingHelper.Lib.Framing — codes that can be read back off the front of a stream.

  A code cancels when, whatever follows, the front of a stream fixes what was written
  there. Words of one length cancel, words behind their length do, and two codes that cancel
  do so one after the other. A list written code by code is then read back as a
  whole (`Cancels.flatMap_inj`).
-/

import Mathlib

namespace BettingHelper.Lib.Framing

open InformationTheory

variable {α β γ : Type} {P : α → Prop} {Q : β → Prop} {f : α → List γ} {g : β → List γ}

def Cancels (P : α → Prop) (f : α → List γ) : Prop :=
  ∀ ⦃x y⦄, P x → P y → ∀ ⦃s t⦄, f x ++ s = f y ++ t → x = y ∧ s = t

theorem Cancels.injOn (h : Cancels P f) : Set.InjOn f {x | P x} := by
  intro x hx y hy hxy
  exact (h hx hy (s := []) (t := []) (by rw [hxy])).1

theorem Cancels.comap {R : β → Prop} {k : β → α} (h : Cancels P f) (hk : Set.InjOn k {x | R x}) (hR : ∀ x, R x → P (k x)) :
    Cancels R fun x => f (k x) := by
  intro x y hx hy s t hst
  obtain ⟨hxy, hst⟩ := h (hR x hx) (hR y hy) hst
  exact ⟨hk hx hy hxy, hst⟩

/-- What is of one length is cut off by its length. -/
theorem cancels_fixed {n : Nat} (hn : ∀ x, P x → (f x).length = n) (hf : Set.InjOn f {x | P x}) : Cancels P f := by
  intro x y hx hy s t hst
  obtain ⟨hxy, hst⟩ := List.append_inj hst (by rw [hn x hx, hn y hy])
  exact ⟨hf hx hy hxy, hst⟩

/-- What comes after its length is cut off by it. -/
theorem cancels_prefixed {k : Nat → List γ} {N : Nat} (hk : Cancels (· < N) k) (hN : ∀ x, P x → (f x).length < N)
    (hf : Set.InjOn f {x | P x}) : Cancels P fun x => k (f x).length ++ f x := by
  intro x y hx hy s t hst
  have hst : k (f x).length ++ (f x ++ s) = k (f y).length ++ (f y ++ t) := by simpa using hst
  obtain ⟨hl, hst⟩ := hk (hN x hx) (hN y hy) hst
  obtain ⟨hxy, hst⟩ := List.append_inj hst hl
  exact ⟨hf hx hy hxy, hst⟩

theorem Cancels.pair (hf : Cancels P f) (hg : Cancels Q g) : Cancels (fun x : α × β => P x.1 ∧ Q x.2) fun x => f x.1 ++ g x.2 := by
  intro x y hx hy s t hst
  have hst : f x.1 ++ (g x.2 ++ s) = f y.1 ++ (g y.2 ++ t) := by simpa using hst
  obtain ⟨h₁, hst⟩ := hf hx.1 hy.1 hst
  obtain ⟨h₂, hst⟩ := hg hx.2 hy.2 hst
  exact ⟨Prod.ext h₁ h₂, hst⟩

theorem Cancels.uniquelyDecodable (h : Cancels P f) (hne : ∀ x, P x → f x ≠ []) :
    UniquelyDecodable (f '' {x | P x}) := by
  intro l
  induction l with
  | nil =>
    intro m _ hm hlm
    cases m with
    | nil => rfl
    | cons w m =>
      obtain ⟨x, hx, rfl⟩ := hm w List.mem_cons_self
      exact absurd (List.append_eq_nil_iff.mp hlm.symm).1 (hne x hx)
  | cons v l ih =>
    intro m hl hm hlm
    obtain ⟨x, hx, rfl⟩ := hl v List.mem_cons_self
    cases m with
    | nil => exact absurd (List.append_eq_nil_iff.mp hlm).1 (hne x hx)
    | cons w m =>
      obtain ⟨y, hy, rfl⟩ := hm w List.mem_cons_self
      obtain ⟨rfl, htail⟩ := h hx hy hlm
      rw [ih m (fun w hw => hl w (List.mem_cons_of_mem _ hw)) (fun w hw => hm w (List.mem_cons_of_mem _ hw)) htail]

theorem map_injOn {k : α → β} {l m : List α} (hf : Set.InjOn k {x | P x}) (hl : ∀ x ∈ l, P x) (hm : ∀ x ∈ m, P x) (h : l.map k = m.map k) :
    l = m := by
  induction l generalizing m with
  | nil => exact (List.map_eq_nil_iff.mp h.symm).symm
  | cons x l ih =>
    cases m with
    | nil => cases h
    | cons y m =>
      obtain ⟨hxy, h⟩ := List.cons.inj h
      rw [hf (hl x List.mem_cons_self) (hm y List.mem_cons_self) hxy,
        ih (fun z hz => hl z (List.mem_cons_of_mem _ hz)) (fun z hz => hm z (List.mem_cons_of_mem _ hz)) h]

theorem Cancels.flatMap_inj (h : Cancels P f) (hne : ∀ x, P x → f x ≠ []) {l m : List α} (hl : ∀ x ∈ l, P x)
    (hm : ∀ x ∈ m, P x) (hlm : l.flatMap f = m.flatMap f) : l = m := by
  refine map_injOn h.injOn hl hm (h.uniquelyDecodable hne _ _ ?_ ?_ hlm)
  · intro w hw
    obtain ⟨x, hx, rfl⟩ := List.mem_map.mp hw
    exact ⟨x, hl x hx, rfl⟩
  · intro w hw
    obtain ⟨x, hx, rfl⟩ := List.mem_map.mp hw
    exact ⟨x, hm x hx, rfl⟩

/-! ## Digits -/

/-- The last `k` digits of `n`, the first of them first. -/
def digits (base k n : Nat) : List Nat := (List.range k).map fun i => n / base ^ (k - 1 - i) % base

theorem mod_pow_eq {base k m n : Nat} (h : ∀ i < k, m / base ^ i % base = n / base ^ i % base) :
    m % base ^ k = n % base ^ k := by
  induction k with
  | zero => rw [Nat.pow_zero, Nat.mod_one, Nat.mod_one]
  | succ k ih => rw [Nat.mod_pow_succ, Nat.mod_pow_succ, ih fun i hi => h i (Nat.lt_succ_of_lt hi), h k (Nat.lt_succ_self k)]

theorem digits_injOn (base k : Nat) : Set.InjOn (digits base k) {n | n < base ^ k} := by
  intro m hm n hn h
  have hd : ∀ i < k, m / base ^ i % base = n / base ^ i % base := by
    intro i hi
    have := List.map_inj_left.mp h (k - 1 - i) (List.mem_range.mpr (by omega))
    rwa [show k - 1 - (k - 1 - i) = i by omega] at this
  rw [← Nat.mod_eq_of_lt hm, ← Nat.mod_eq_of_lt hn, mod_pow_eq hd]

theorem digits_lt {base k n d : Nat} (hb : 0 < base) (hd : d ∈ digits base k n) : d < base := by
  obtain ⟨i, -, rfl⟩ := List.mem_map.mp hd
  exact Nat.mod_lt _ hb

/-- Digits written by a code of their own are read back too. -/
theorem digits_map_injOn {base k : Nat} (hb : 0 < base) {f : Nat → γ} (hf : Set.InjOn f {d | d < base}) :
    Set.InjOn (fun n => (digits base k n).map f) {n | n < base ^ k} := by
  intro m hm n hn h
  exact digits_injOn base k hm hn (map_injOn hf (fun d => digits_lt hb) (fun d => digits_lt hb) h)

end BettingHelper.Lib.Framing
