/-
  BettingHelper.Lib.Elimination — Kahn's elimination: a node is taken when none of its
  predecessors is left, and taking it lowers the counter of each of its successors.

  Over any graph of finitely many nodes, its successors listed in any order.
  `drain_done`: the elimination ends, and the nodes it does not reach are those that a cycle
  keeps back: it takes all the nodes exactly when the graph has no cycle.
-/

import Mathlib

namespace BettingHelper.Lib.Elimination

variable {α : Type}

/-! ## Cycles -/

/-- No way along the edges leads back to where it starts. -/
def Acyclic (r : α → α → Prop) : Prop := ∀ a, ¬Relation.TransGen r a a

/-- The last one first: all the predecessors of a member come after it. -/
def Layered (r : α → α → Prop) : List α → Prop
  | [] => True
  | a :: l => (∀ b, r b a → b ∈ l) ∧ Layered r l

section Cycles

variable {r : α → α → Prop}

theorem Layered.suffix {l m : List α} (h : Layered r (l ++ m)) : Layered r m := by
  induction l with
  | nil => exact h
  | cons a l ih => exact ih h.2

theorem Layered.before {l m : List α} {a b : α} (h : Layered r (l ++ b :: m)) (hab : Relation.TransGen r a b) : a ∈ m := by
  induction hab generalizing l m with
  | single hb => exact h.suffix.1 _ hb
  | tail _ hcb ih =>
    obtain ⟨m₁, m₂, rfl⟩ := List.append_of_mem (h.suffix.1 _ hcb)
    have hm := ih h.suffix.2
    exact List.mem_append_right _ (List.mem_cons_of_mem _ hm)

theorem Layered.acyclic {l : List α} (h : Layered r l) (hn : l.Nodup) (hall : ∀ a b, r a b → b ∈ l) : Acyclic r := by
  intro a ha
  have hmem : a ∈ l := by
    cases ha with
    | single hb => exact hall _ _ hb
    | tail _ hb => exact hall _ _ hb
  obtain ⟨m₁, m₂, rfl⟩ := List.append_of_mem hmem
  have hin := h.before ha
  exact (List.nodup_cons.mp (List.nodup_append.mp hn).2.1).1 hin

/-- Of finitely many nodes of a graph without cycles, one has no predecessor among them. -/
theorem Acyclic.exists_first (h : Acyclic r) {u : Finset α} (hu : u.Nonempty) : ∃ m ∈ u, ∀ b ∈ u, ¬r b m := by
  let before (a b : u) : Prop := Relation.TransGen r a b
  have : IsTrans u before := ⟨fun _ _ _ => Relation.TransGen.trans⟩
  have : Std.Irrefl before := ⟨fun a => h a⟩
  have hwf : WellFounded before := Finite.wellFounded_of_trans_of_irrefl before
  obtain ⟨a, ha⟩ := hu
  obtain ⟨m, -, hm⟩ := hwf.has_min Set.univ ⟨⟨a, ha⟩, trivial⟩
  exact ⟨m, m.2, fun b hb hbm => hm ⟨b, hb⟩ trivial (.single hbm)⟩

end Cycles

/-! ## The elimination -/

variable [DecidableEq α]

structure State (α : Type) where
  incoming : α → Int
  ready : List α
  visited : Nat

/-- One predecessor of the target less. -/
def release (s : State α) (target : α) : State α :=
  let count := s.incoming target - 1
  { s with
    incoming := Function.update s.incoming target count
    ready := if count = 0 then s.ready ++ [target] else s.ready }

/-- A ready node is taken. -/
def take (out : α → List α) (s : State α) (source : α) : State α :=
  (out source).foldl release { s with ready := s.ready.dropLast, visited := s.visited + 1 }

/-- As long as there is a ready node, with fuel for so many. -/
def drain (out : α → List α) : Nat → State α → Option (State α)
  | 0, _ => none
  | n + 1, s =>
    match s.ready.getLast? with
    | none => some s
    | some source => drain out n (take out s source)

theorem release_all {l : List α} (hl : l.Nodup) (s : State α) :
    l.foldl release s =
      { s with
        incoming := fun a => if a ∈ l then s.incoming a - 1 else s.incoming a
        ready := s.ready ++ l.filter fun a => s.incoming a = 1 } := by
  induction l generalizing s with
  | nil => simp
  | cons a l ih =>
    obtain ⟨ha, hl⟩ := List.nodup_cons.mp hl
    have hcount : (fun b => if b ∈ l then Function.update s.incoming a (s.incoming a - 1) b - 1
          else Function.update s.incoming a (s.incoming a - 1) b) =
        fun b => if b ∈ a :: l then s.incoming b - 1 else s.incoming b := by
      funext b
      by_cases hb : b = a
      · subst hb
        simp [ha]
      · simp [hb]
    have hfilter : (l.filter fun b => Function.update s.incoming a (s.incoming a - 1) b = 1) = l.filter fun b => s.incoming b = 1 := by
      refine List.filter_congr fun b hb => ?_
      have hne : b ≠ a := fun he => ha (he ▸ hb)
      rw [Function.update_of_ne hne]
    rw [List.foldl_cons, ih hl, release]
    simp only [hcount, hfilter, List.filter_cons, decide_eq_true_eq]
    by_cases hone : s.incoming a = 1
    · have hzero : s.incoming a - 1 = 0 := by omega
      simp [hone]
    · have hzero : s.incoming a - 1 ≠ 0 := by omega
      simp [hone, hzero]

/-! ## The invariant -/

section Invariant

variable (out : α → List α) (nodes : List α)

/-- The predecessors of a node that are not done. -/
def pending (done : List α) (a : α) : Finset α := nodes.toFinset.filter fun b => b ∉ done ∧ a ∈ out b

/-- The nodes done, the last first, beside a state of the elimination. -/
structure Inv (s : State α) (done : List α) : Prop where
  visited : s.visited = done.length
  nodup : (done ++ s.ready).Nodup
  mem : ∀ a ∈ done ++ s.ready, a ∈ nodes
  counts : ∀ a ∈ nodes, s.incoming a = (pending out nodes done a).card
  free : ∀ a ∈ nodes, a ∈ done ++ s.ready ↔ s.incoming a = 0
  layered : Layered (fun a b => b ∈ out a) done

end Invariant

/-- A graph on the nodes, no edge listed twice. -/
structure Graph (out : α → List α) (nodes : List α) : Prop where
  nodup : nodes.Nodup
  simple : ∀ a, (out a).Nodup
  source : ∀ a b, b ∈ out a → a ∈ nodes
  target : ∀ a b, b ∈ out a → b ∈ nodes

section Run

variable {out : α → List α} {nodes : List α}

theorem pending_cons {done : List α} {source : α} (hs : source ∈ nodes) (hd : source ∉ done) (a : α) :
    ((pending out nodes (source :: done) a).card : Int) =
      if a ∈ out source then ((pending out nodes done a).card : Int) - 1 else (pending out nodes done a).card := by
  have herase : pending out nodes (source :: done) a = (pending out nodes done a).erase source := by
    ext b
    simp only [pending, Finset.mem_filter, Finset.mem_erase, List.mem_cons, not_or]
    tauto
  rw [herase]
  by_cases ha : a ∈ out source
  · have hin : source ∈ pending out nodes done a := by simp [pending, hs, hd, ha]
    have hpos := Finset.card_pos.mpr ⟨source, hin⟩
    rw [if_pos ha, Finset.card_erase_of_mem hin]
    omega
  · have hout : source ∉ pending out nodes done a := by simp [pending, ha]
    rw [if_neg ha, Finset.erase_eq_of_notMem hout]

/-- A node with no predecessor left has all of them done. -/
theorem Inv.preds (hg : Graph out nodes) {s : State α} {done : List α} (h : Inv out nodes s done) {a : α} (ha : a ∈ nodes)
    (hz : s.incoming a = 0) : ∀ b, a ∈ out b → b ∈ done := by
  intro b hb
  have hcard : (pending out nodes done a).card = 0 := by
    have := h.counts a ha
    omega
  by_contra hd
  have hin : b ∈ pending out nodes done a := by simp [pending, hg.source _ _ hb, hd, hb]
  rw [Finset.card_eq_zero.mp hcard] at hin
  exact absurd hin (Finset.notMem_empty b)

theorem Inv.take (hg : Graph out nodes) {s : State α} {done : List α} (h : Inv out nodes s done) {source : α}
    (hr : s.ready.getLast? = some source) : Inv out nodes (take out s source) (source :: done) := by
  obtain ⟨ready, hready⟩ := List.getLast?_eq_some_iff.mp hr
  have hnodup := h.nodup
  have hmem := h.mem
  have hfree := h.free
  rw [hready] at hnodup hmem hfree
  have hsource : source ∈ nodes := hmem source (by simp)
  have hdone : source ∉ done := by
    intro hd
    exact (List.nodup_append.mp hnodup).2.2 source hd source (by simp) rfl
  have hzero : s.incoming source = 0 := (hfree source hsource).mp (by simp)
  have hpreds := h.preds hg hsource hzero
  -- a node that becomes ready was waiting for the source alone
  have hnew : ∀ a, a ∈ (out source).filter (fun a => s.incoming a = 1) ↔ a ∈ out source ∧ s.incoming a = 1 := by simp
  have hold : ∀ a ∈ (out source).filter (fun a => s.incoming a = 1), a ∉ done ++ (ready ++ [source]) := by
    intro a ha hin
    have := (hfree a (hg.target _ _ ((hnew a).mp ha).1)).mp hin
    have := ((hnew a).mp ha).2
    omega
  have hperm : (source :: done ++ ready).Perm (done ++ (ready ++ [source])) := by
    rw [← List.append_assoc]
    exact (List.perm_append_singleton source (done ++ ready)).symm
  have htake : Elimination.take out s source =
      { incoming := fun a => if a ∈ out source then s.incoming a - 1 else s.incoming a
        ready := ready ++ (out source).filter fun a => s.incoming a = 1
        visited := s.visited + 1 } := by
    rw [Elimination.take, release_all (hg.simple source), hready, List.dropLast_concat]
  rw [htake]
  refine ⟨?_, ?_, ?_, ?_, ?_, hpreds, h.layered⟩
  · rw [List.length_cons, h.visited]
  · rw [← List.append_assoc, List.nodup_append]
    refine ⟨hperm.nodup_iff.mpr hnodup, (hg.simple source).filter _, fun a ha b hb hab => ?_⟩
    exact hold b hb (hperm.mem_iff.mp (hab ▸ ha))
  · intro a ha
    rw [← List.append_assoc, List.mem_append] at ha
    rcases ha with ha | ha
    · exact hmem a (hperm.mem_iff.mp ha)
    · exact hg.target _ _ ((hnew a).mp ha).1
  · intro a ha
    rw [pending_cons hsource hdone, ← h.counts a ha]
  · intro a ha
    rw [← List.append_assoc, List.mem_append, hperm.mem_iff, hfree a ha, hnew]
    by_cases hout : a ∈ out source
    · have hpos : s.incoming a ≠ 0 := fun hz => hdone (h.preds hg ha hz source hout)
      simp only [hout, if_true, true_and]
      omega
    · simp [hout]

theorem Inv.length (hn : nodes.Nodup) {s : State α} {done : List α} (h : Inv out nodes s done) :
    (done ++ s.ready).length ≤ nodes.length :=
  (List.subperm_of_subset h.nodup h.mem).length_le

theorem drain_total (hg : Graph out nodes) {n : Nat} {s : State α} {done : List α} (h : Inv out nodes s done)
    (hfuel : nodes.length < done.length + n) : ∃ s' done', drain out n s = some s' ∧ s'.ready = [] ∧ Inv out nodes s' done' := by
  induction n generalizing s done with
  | zero =>
    have := h.length hg.nodup
    rw [List.length_append] at this
    omega
  | succ n ih =>
    rw [drain]
    cases hr : s.ready.getLast? with
    | none => exact ⟨s, done, rfl, List.getLast?_eq_none_iff.mp hr, h⟩
    | some source =>
      refine ih (h.take hg hr) ?_
      rw [List.length_cons]
      omega

/-- The elimination ends, and it has taken every node exactly when there is no cycle. -/
theorem drain_done (hg : Graph out nodes) {n : Nat} {s : State α} (h : Inv out nodes s []) (hfuel : nodes.length < n) :
    ∃ s', drain out n s = some s' ∧ (s'.visited = nodes.length ↔ Acyclic fun a b => b ∈ out a) := by
  obtain ⟨s', done, hrun, hready, h'⟩ := drain_total hg h (by simpa using hfuel)
  refine ⟨s', hrun, ?_⟩
  have hnodup := h'.nodup
  have hmem := h'.mem
  have hfree := h'.free
  rw [hready, List.append_nil] at hnodup hmem
  rw [hready] at hfree
  rw [h'.visited]
  constructor
  · intro hlen
    have hperm : done.Perm nodes := (List.subperm_of_subset hnodup hmem).perm_of_length_le (by omega)
    exact h'.layered.acyclic hnodup fun a b hb => hperm.mem_iff.mpr (hg.target _ _ hb)
  · intro hacyclic
    have hall : ∀ a ∈ nodes, a ∈ done := by
      by_contra hne
      push Not at hne
      obtain ⟨a, ha, hd⟩ := hne
      have hleft : (nodes.toFinset.filter fun b => b ∉ done).Nonempty := ⟨a, by simp [ha, hd]⟩
      obtain ⟨m, hm, hfirst⟩ := hacyclic.exists_first hleft
      simp only [Finset.mem_filter, List.mem_toFinset] at hm hfirst
      have hempty : pending out nodes done m = ∅ := by
        refine Finset.eq_empty_of_forall_notMem fun b hb => ?_
        simp only [pending, Finset.mem_filter, List.mem_toFinset] at hb
        exact hfirst b ⟨hb.1, hb.2.1⟩ hb.2.2
      have hzero : s'.incoming m = 0 := by
        rw [h'.counts m hm.1, hempty, Finset.card_empty]
        rfl
      exact hm.2 (by simpa using (hfree m hm.1).mpr hzero)
    have hle := (List.subperm_of_subset hnodup hmem).length_le
    have hge := (List.subperm_of_subset hg.nodup hall).length_le
    omega

end Run

end BettingHelper.Lib.Elimination
