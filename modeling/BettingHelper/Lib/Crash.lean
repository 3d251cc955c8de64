/-
  BettingHelper.Lib.Crash — calls that make several durable writes, and may be cut short
  between any two of them.

  An execution is the list of durable states a call writes, each with its place in the
  code, and what the call ends with. A crash leaves the state the call started in or any
  state it wrote.

  `Meets p s C Q E`: run from `s`, every state `p` writes satisfies `C`, and the state it
  leaves satisfies `Q` where it returns and `E` where it raises. The rules follow the
  shape of the program (`Meets.bind`, `Meets.each`, …).
-/

import Mathlib

namespace BettingHelper.Lib.Crash

structure Exec (σ ℓ ε α : Type) where
  writes : List (ℓ × σ)
  result : Except ε α

variable {σ ℓ ε α β : Type}

/-- The state left, from the state `s` at the start. -/
def Exec.final (x : Exec σ ℓ ε α) (s : σ) : σ := x.writes.foldl (fun _ w => w.2) s

@[simp] theorem Exec.final_nil (r : Except ε α) (s : σ) : (⟨[], r⟩ : Exec σ ℓ ε α).final s = s := rfl

theorem Exec.final_append (v w : List (ℓ × σ)) (r : Except ε α) (s : σ) : (⟨v ++ w, r⟩ : Exec σ ℓ ε α).final s =
    (⟨w, r⟩ : Exec σ ℓ ε α).final ((⟨v, r⟩ : Exec σ ℓ ε α).final s) := List.foldl_append

/-- A call, by the durable state it finds. -/
def Prog (σ ℓ ε α : Type) := σ → Exec σ ℓ ε α

namespace Prog

def ret (a : α) : Prog σ ℓ ε α := fun _ => ⟨[], .ok a⟩

def raise (e : ε) : Prog σ ℓ ε α := fun _ => ⟨[], .error e⟩

def andThen (p : Prog σ ℓ ε α) (q : α → Prog σ ℓ ε β) : Prog σ ℓ ε β := fun s =>
  match (p s).result with
  | .error e => ⟨(p s).writes, .error e⟩
  | .ok a => ⟨(p s).writes ++ (q a ((p s).final s)).writes, (q a ((p s).final s)).result⟩

instance : Monad (Prog σ ℓ ε) where
  pure := ret
  bind := andThen

/-- What is computed from the durable state alone. -/
def read (f : σ → Except ε α) : Prog σ ℓ ε α := fun s => ⟨[], f s⟩

/-- The states written one after another. -/
def write (f : σ → List (ℓ × σ)) : Prog σ ℓ ε Unit := fun s => ⟨f s, .ok ()⟩

/-- `for b in l: p(b)`, counting the passes that return `true`. -/
def each (p : β → Prog σ ℓ ε Bool) : List β → Prog σ ℓ ε Nat
  | [] => ret 0
  | b :: l => andThen (p b) fun done => andThen (each p l) fun n => ret (if done then n + 1 else n)

/-- A loop whose passes do nothing does nothing. -/
theorem each_skip {p : β → Prog σ ℓ ε Bool} {l : List β} {s : σ} (hl : ∀ b ∈ l, p b s = ⟨[], .ok false⟩) :
    each p l s = ⟨[], .ok 0⟩ := by
  induction l with
  | nil => rfl
  | cons b l ih =>
    simp only [each, andThen, hl b List.mem_cons_self, Exec.final, List.foldl_nil,
      ih fun c hc => hl c (List.mem_cons_of_mem _ hc), ret, List.append_nil, Bool.false_eq_true, if_false]

/-- A loop in which one pass does something does that. -/
theorem each_single {p : β → Prog σ ℓ ε Bool} {b : β} {l m : List β} {s : σ}
    (hl : ∀ a ∈ l ++ m, ∀ t, p a t = ⟨[], .ok false⟩) :
    each p (l ++ b :: m) s = ⟨(p b s).writes, (p b s).result.map fun done => if done then 1 else 0⟩ := by
  induction l with
  | nil =>
    have hm : ∀ t, each p m t = ⟨[], .ok 0⟩ := fun t => each_skip fun a ha => hl a ha t
    cases hr : (p b s).result with
    | error e => simp [each, andThen, hr, Except.map]
    | ok done => cases done <;> simp [each, andThen, hr, hm, ret, Except.map]
  | cons a l ih =>
    have ih := ih fun c hc => hl c (List.mem_cons_of_mem _ hc)
    have ha := hl a List.mem_cons_self s
    rw [List.cons_append]
    cases hr : (p b s).result with
    | error e =>
      rw [hr] at ih
      simp only [each, andThen, ha, Exec.final, List.foldl_nil, ih, Except.map, List.nil_append]
    | ok done =>
      rw [hr] at ih
      simp only [each, andThen, ha, Exec.final, List.foldl_nil, ih, Except.map, ret, List.append_nil, List.nil_append,
        Bool.false_eq_true, if_false]

end Prog

/-- The states a crash of the call can leave: that before it, and each it writes. -/
def crashes (p : Prog σ ℓ ε α) (s : σ) : List σ := s :: (p s).writes.map (·.2)

theorem mem_crashes {p : Prog σ ℓ ε α} {s : σ} {w : ℓ × σ} (hw : w ∈ (p s).writes) : w.2 ∈ crashes p s :=
  List.mem_cons_of_mem _ (List.mem_map.mpr ⟨w, hw, rfl⟩)

theorem final_mem_crashes (p : Prog σ ℓ ε α) (s : σ) : (p s).final s ∈ crashes p s := by
  have hmem : ∀ (l : List (ℓ × σ)) (t : σ), l.foldl (fun _ w => w.2) t ∈ t :: l.map (·.2) := by
    intro l
    induction l with
    | nil => intro t; exact List.mem_cons_self
    | cons w l ih => intro t; exact List.mem_cons_of_mem _ (ih w.2)
  exact hmem _ _

/-- The writes of the first part are writes of the whole. -/
theorem mem_writes_left {p : Prog σ ℓ ε α} {q : α → Prog σ ℓ ε β} {s : σ} {w : ℓ × σ} (hw : w ∈ (p s).writes) :
    w ∈ ((p >>= q) s).writes := by
  show w ∈ (Prog.andThen p q s).writes
  unfold Prog.andThen
  cases (p s).result with
  | error e => exact hw
  | ok a => exact List.mem_append_left _ hw

/-- After a first part that returns, so are those of the second. -/
theorem mem_writes_right {p : Prog σ ℓ ε α} {q : α → Prog σ ℓ ε β} {s : σ} {v : List (ℓ × σ)} {a : α} {w : ℓ × σ}
    (hx : p s = ⟨v, .ok a⟩) (hw : w ∈ (q a (v.foldl (fun _ u => u.2) s)).writes) : w ∈ ((p >>= q) s).writes := by
  show w ∈ (Prog.andThen p q s).writes
  simp only [Prog.andThen, hx]
  exact List.mem_append_right _ hw

structure Meets (p : Prog σ ℓ ε α) (s : σ) (C : ℓ → σ → Prop) (Q : α → σ → Prop) (E : ε → σ → Prop) : Prop where
  during : ∀ w ∈ (p s).writes, C w.1 w.2
  returns : ∀ a, (p s).result = .ok a → Q a ((p s).final s)
  raises : ∀ e, (p s).result = .error e → E e ((p s).final s)

namespace Meets

variable {p : Prog σ ℓ ε α} {q : α → Prog σ ℓ ε β} {s : σ} {C C' : ℓ → σ → Prop} {Q Q' : α → σ → Prop}
  {R : β → σ → Prop} {E E' : ε → σ → Prop}

theorem ret {a : α} (h : Q a s) : Meets (Prog.ret a) s C Q E where
  during := by intro w hw; cases hw
  returns := by intro b hb; cases hb; exact h
  raises := by intro e he; cases he

theorem raise {e : ε} (h : E e s) : Meets (Prog.raise e) s C Q E where
  during := by intro w hw; cases hw
  returns := by intro b hb; cases hb
  raises := by intro e' he; cases he; exact h

theorem read {f : σ → Except ε α} (hok : ∀ a, f s = .ok a → Q a s) (herr : ∀ e, f s = .error e → E e s) :
    Meets (Prog.read f) s C Q E where
  during := by intro w hw; cases hw
  returns := hok
  raises := herr

theorem write {f : σ → List (ℓ × σ)} {Q : Unit → σ → Prop} (hd : ∀ w ∈ f s, C w.1 w.2)
    (hq : Q () ((f s).foldl (fun _ w => w.2) s)) : Meets (Prog.write f) s C Q E where
  during := hd
  returns := by intro a _; exact hq
  raises := by intro e he; cases he

/-- Two calls that do the same from this state. -/
theorem congr {p' : Prog σ ℓ ε α} (hx : p s = p' s) (hp : Meets p' s C Q E) : Meets p s C Q E where
  during := by rw [hx]; exact hp.during
  returns := by rw [hx]; exact hp.returns
  raises := by rw [hx]; exact hp.raises

/-- A call whose writes are known and that returns. -/
theorem of_ok {w : List (ℓ × σ)} {a : α} (hx : p s = ⟨w, .ok a⟩) (hd : ∀ v ∈ w, C v.1 v.2)
    (hq : Q a (w.foldl (fun _ v => v.2) s)) : Meets p s C Q E where
  during := by rw [hx]; exact hd
  returns := by
    rw [hx]
    intro b hb
    cases hb
    exact hq
  raises := by rw [hx]; intro e he; cases he

/-- What holds at the start and of every write holds throughout. -/
theorem of_writes {I : σ → Prop} (hw : ∀ w ∈ (p s).writes, I w.2) (hs : I s) :
    Meets p s (fun _ => I) (fun _ => I) (fun _ => I) := by
  have hfinal : I ((p s).final s) := by
    rcases List.mem_cons.mp (final_mem_crashes p s) with he | hm
    · rw [he]
      exact hs
    · obtain ⟨w, hmem, he⟩ := List.mem_map.mp hm
      rw [← he]
      exact hw w hmem
  exact ⟨hw, fun _ _ => hfinal, fun _ _ => hfinal⟩

/-- A call that raises at once. -/
theorem of_error {e : ε} (hx : p s = ⟨[], .error e⟩) (he : E e s) : Meets p s C Q E where
  during := by rw [hx]; intro w hw; cases hw
  returns := by rw [hx]; intro a ha; cases ha
  raises := by
    rw [hx]
    intro e' he'
    cases he'
    exact he

theorem andThen (hp : Meets p s C Q E) (hq : ∀ a t, Q a t → Meets (q a) t C R E) :
    Meets (Prog.andThen p q) s C R E := by
  cases hr : (p s).result with
  | error e =>
    have hx : Prog.andThen p q s = ⟨(p s).writes, .error e⟩ := by simp only [Prog.andThen, hr]
    refine ⟨?_, ?_, ?_⟩
    · rw [hx]; exact hp.during
    · rw [hx]; intro a ha; cases ha
    · rw [hx]
      intro e' he
      cases he
      exact hp.raises e hr
  | ok a =>
    have hx : Prog.andThen p q s = ⟨(p s).writes ++ (q a ((p s).final s)).writes, (q a ((p s).final s)).result⟩ := by
      simp only [Prog.andThen, hr]
    have hn := hq a _ (hp.returns a hr)
    have hf : (Prog.andThen p q s).final s = (q a ((p s).final s)).final ((p s).final s) := by
      rw [hx]
      exact List.foldl_append
    refine ⟨?_, ?_, ?_⟩
    · rw [hx]
      intro w hw
      rcases List.mem_append.mp hw with hw | hw
      · exact hp.during w hw
      · exact hn.during w hw
    · rw [hf, hx]; exact hn.returns
    · rw [hf, hx]; exact hn.raises

theorem bind (hp : Meets p s C Q E) (hq : ∀ a t, Q a t → Meets (q a) t C R E) : Meets (p >>= q) s C R E := hp.andThen hq

theorem mono (hp : Meets p s C Q E) (hC : ∀ l t, C l t → C' l t) (hQ : ∀ a t, Q a t → Q' a t)
    (hE : ∀ e t, E e t → E' e t) : Meets p s C' Q' E' where
  during := fun w hw => hC _ _ (hp.during w hw)
  returns := fun a ha => hQ _ _ (hp.returns a ha)
  raises := fun e he => hE _ _ (hp.raises e he)

/-- A loop keeps what every pass keeps. -/
theorem each {p : β → Prog σ ℓ ε Bool} {I : σ → Prop} {l : List β}
    (hp : ∀ b ∈ l, ∀ t, I t → Meets (p b) t C (fun _ => I) E) (hs : I s) :
    Meets (Prog.each p l) s C (fun _ => I) E := by
  induction l generalizing s with
  | nil => exact .ret hs
  | cons b l ih =>
    refine (hp b (by simp) s hs).andThen fun done t ht => ?_
    exact (ih (fun c hc => hp c (by simp [hc])) ht).andThen fun n u hu => .ret hu

/-- What holds of the state at the start and of each state written holds after a crash. -/
theorem crash {I : σ → Prop} (hp : Meets p s (fun _ => I) Q E) (hs : I s) {t : σ} (ht : t ∈ crashes p s) : I t := by
  rcases List.mem_cons.mp ht with rfl | ht
  · exact hs
  · obtain ⟨w, hw, rfl⟩ := List.mem_map.mp ht
    exact hp.during w hw

end Meets

end BettingHelper.Lib.Crash
