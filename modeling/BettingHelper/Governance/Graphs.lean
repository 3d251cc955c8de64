/-
  BettingHelper.Governance.Graphs — `_validate_graph_edges` of `governance.py`: each edge
  joins two nodes, none is listed twice, and an elimination reaches every node.

  Python iterates over a set in an order of its own. The nodes stand in that order here, and
  the order in which the targets of a node come is any rearrangement of them (`Shuffle`).
  Proved for every order (`validates_iff`): the check passes exactly for the graphs without
  a cycle.
-/

import BettingHelper.Lib.Elimination

namespace BettingHelper.Governance

open BettingHelper.Lib.Elimination

variable {α : Type} [DecidableEq α]

/-- How the set of a node's targets is iterated. -/
structure Shuffle (α : Type) where
  order : α → List α → List α
  perm : ∀ a l, (order a l).Perm l

/-- `outgoing` and `incoming` -/
structure Links (α : Type) where
  outgoing : α → List α
  incoming : α → Int

/-- One edge. -/
def link (s : Links α) : List α → Option (Links α)
  | [source, target] =>
    if target ∈ s.outgoing source then none
    else
      some
        { outgoing := Function.update s.outgoing source (s.outgoing source ++ [target])
          incoming := Function.update s.incoming target (s.incoming target + 1) }
  | _ => none

/-- `_validate_graph_edges`; the elimination has fuel to take every node. -/
def validateGraphEdges (shuffle : Shuffle α) (nodes : List α) (edges : List (List α)) : Bool :=
  (edges.all fun edge => edge.length = 2 && edge.all (· ∈ nodes)) &&
    match edges.foldlM link { outgoing := fun _ => [], incoming := fun _ => 0 } with
    | none => false
    | some s =>
      let ready := nodes.filter fun node => s.incoming node = 0
      match drain (fun a => shuffle.order a (s.outgoing a)) (nodes.length + 1) { incoming := s.incoming, ready := ready, visited := 0 } with
      | none => false
      | some t => t.visited = nodes.length

/-! ## The links -/

/-- What the edges so far have made. -/
structure Linked (nodes : List α) (edges : List (List α)) (s : Links α) : Prop where
  outgoing : ∀ a b, b ∈ s.outgoing a ↔ [a, b] ∈ edges
  simple : ∀ a, (s.outgoing a).Nodup
  incoming : ∀ b, s.incoming b = (nodes.toFinset.filter fun a => b ∈ s.outgoing a).card

variable {nodes : List α}

theorem link_some {edges : List (List α)} {s : Links α} (h : Linked nodes edges s) {source target : α} (hs : source ∈ nodes)
    (hnew : [source, target] ∉ edges) : ∃ s', link s [source, target] = some s' ∧ Linked nodes (edges ++ [[source, target]]) s' := by
  have hout : target ∉ s.outgoing source := fun hin => hnew ((h.outgoing _ _).mp hin)
  refine ⟨_, if_neg hout, ?_⟩
  have hmem : ∀ a b, b ∈ Function.update s.outgoing source (s.outgoing source ++ [target]) a ↔ b ∈ s.outgoing a ∨ a = source ∧ b = target := by
    intro a b
    by_cases ha : a = source
    · subst ha
      simp
    · simp [ha]
  refine ⟨fun a b => ?_, fun a => ?_, fun b => ?_⟩
  · rw [hmem, h.outgoing]
    simp
  · show (Function.update s.outgoing source (s.outgoing source ++ [target]) a).Nodup
    by_cases ha : a = source
    · subst ha
      rw [Function.update_self]
      exact List.nodup_append.mpr ⟨h.simple a, List.nodup_singleton _, fun x hx y hy he => hout (by simp_all)⟩
    · rw [Function.update_of_ne ha]
      exact h.simple a
  · simp only [hmem]
    by_cases hb : b = target
    · subst hb
      have hinsert : (nodes.toFinset.filter fun a => b ∈ s.outgoing a ∨ a = source ∧ b = b) =
          insert source (nodes.toFinset.filter fun a => b ∈ s.outgoing a) := by
        ext a
        simp only [Finset.mem_filter, Finset.mem_insert, List.mem_toFinset, and_true]
        constructor
        · rintro ⟨ha, hin | rfl⟩
          · exact .inr ⟨ha, hin⟩
          · exact .inl rfl
        · rintro (rfl | ⟨ha, hin⟩)
          · exact ⟨hs, .inr rfl⟩
          · exact ⟨ha, .inl hin⟩
      rw [Function.update_self, h.incoming, hinsert, Finset.card_insert_of_notMem (by simp [hout])]
      omega
    · simp [hb, h.incoming]

theorem link_none {edges : List (List α)} {s : Links α} (h : Linked nodes edges s) {source target : α}
    (hold : [source, target] ∈ edges) : link s [source, target] = none := if_pos ((h.outgoing _ _).mpr hold)

/-- An edge between two nodes. -/
def Joins (nodes : List α) (edge : List α) : Prop := ∃ a ∈ nodes, ∃ b ∈ nodes, edge = [a, b]

/-- The edges that are left are linked exactly when each of them is new. -/
theorem links_iff {done left : List (List α)} {s : Links α} (h : Linked nodes done s) (hleft : ∀ e ∈ left, Joins nodes e)
    (hdone : done.Nodup) :
    (∃ s', left.foldlM link s = some s' ∧ Linked nodes (done ++ left) s' ∧ (done ++ left).Nodup) ∨
      left.foldlM link s = none ∧ ¬(done ++ left).Nodup := by
  induction left generalizing done s with
  | nil =>
    rw [List.append_nil]
    exact .inl ⟨s, rfl, h, hdone⟩
  | cons e left ih =>
    obtain ⟨a, ha, b, hb, rfl⟩ := hleft e List.mem_cons_self
    by_cases hold : [a, b] ∈ done
    · right
      refine ⟨by rw [List.foldlM_cons, link_none h hold]; rfl, fun hn => ?_⟩
      exact (List.nodup_append.mp hn).2.2 _ hold _ List.mem_cons_self rfl
    · obtain ⟨s', hs', h'⟩ := link_some h ha hold
      have hdone' : (done ++ [[a, b]]).Nodup := by
        refine List.nodup_append.mpr ⟨hdone, List.nodup_singleton _, fun x hx y hy he => hold ?_⟩
        rw [← List.mem_singleton.mp hy, ← he]
        exact hx
      rw [List.foldlM_cons, hs']
      have := ih h' (fun e he => hleft e (List.mem_cons_of_mem _ he)) hdone'
      rwa [List.append_assoc, List.singleton_append] at this

theorem linked_nil : Linked nodes [] ({ outgoing := fun _ => [], incoming := fun _ => 0 } : Links α) := by
  refine ⟨by simp, fun _ => List.nodup_nil, fun b => ?_⟩
  simp

theorem joins_iff {edge : List α} : (edge.length = 2 && edge.all (· ∈ nodes)) = true ↔ Joins nodes edge := by
  rw [Bool.and_eq_true, decide_eq_true_eq, List.all_eq_true]
  constructor
  · intro ⟨hlen, hall⟩
    obtain ⟨a, b, rfl⟩ := List.length_eq_two.mp hlen
    exact ⟨a, by simpa using hall a (by simp), b, by simpa using hall b (by simp), rfl⟩
  · intro ⟨a, ha, b, hb, he⟩
    subst he
    simp [ha, hb]

/-! ## The check -/

/-- The elimination of a graph that is linked. -/
theorem linked_drain (shuffle : Shuffle α) (hn : nodes.Nodup) {edges : List (List α)} (hedges : ∀ e ∈ edges, Joins nodes e) {s : Links α}
    (h : Linked nodes edges s) :
    ∃ t, drain (fun a => shuffle.order a (s.outgoing a)) (nodes.length + 1)
        { incoming := s.incoming, ready := nodes.filter fun node => s.incoming node = 0, visited := 0 } = some t ∧
      (t.visited = nodes.length ↔ Acyclic fun a b => [a, b] ∈ edges) := by
  have hmem : ∀ a b, b ∈ shuffle.order a (s.outgoing a) ↔ [a, b] ∈ edges := by
    intro a b
    rw [(shuffle.perm _ _).mem_iff, h.outgoing]
  have hends : ∀ a b, [a, b] ∈ edges → a ∈ nodes ∧ b ∈ nodes := by
    intro a b hab
    obtain ⟨a', ha, b', hb, he⟩ := hedges _ hab
    cases he
    exact ⟨ha, hb⟩
  have hgraph : Graph (fun a => shuffle.order a (s.outgoing a)) nodes := {
    nodup := hn
    simple := fun a => (shuffle.perm _ _).nodup_iff.mpr (h.simple a)
    source := fun a b hb => (hends a b ((hmem a b).mp hb)).1
    target := fun a b hb => (hends a b ((hmem a b).mp hb)).2 }
  have hpending : ∀ a, (pending (fun a => shuffle.order a (s.outgoing a)) nodes [] a) = nodes.toFinset.filter fun b => a ∈ s.outgoing b := by
    intro a
    ext b
    simp [pending, (shuffle.perm _ _).mem_iff]
  have hinv : Inv (fun a => shuffle.order a (s.outgoing a)) nodes
      { incoming := s.incoming, ready := nodes.filter fun node => s.incoming node = 0, visited := 0 } [] := by
    refine ⟨rfl, hn.filter _, fun a ha => (List.mem_filter.mp ha).1, fun a _ => ?_, fun a ha => ?_, trivial⟩
    · rw [hpending]
      exact h.incoming a
    · simp [ha]
  obtain ⟨t, ht, hiff⟩ := drain_done hgraph hinv (Nat.lt_succ_self _)
  refine ⟨t, ht, ?_⟩
  rw [hiff]
  simp only [hmem]

/-- The check passes exactly for distinct edges between nodes that make no cycle, a loop at one
node among them, in whatever order the sets are iterated. -/
theorem validates_iff (shuffle : Shuffle α) (hn : nodes.Nodup) (edges : List (List α)) :
    validateGraphEdges shuffle nodes edges = true ↔
      (∀ e ∈ edges, ∃ a ∈ nodes, ∃ b ∈ nodes, e = [a, b]) ∧ edges.Nodup ∧ Acyclic fun a b => [a, b] ∈ edges := by
  rw [validateGraphEdges, Bool.and_eq_true, List.all_eq_true]
  simp only [joins_iff]
  refine and_congr_right fun hedges => ?_
  rcases links_iff linked_nil hedges List.nodup_nil with ⟨s, hs, h, hnodup⟩ | ⟨hs, hnodup⟩
  · obtain ⟨t, ht, hiff⟩ := linked_drain shuffle hn hedges h
    rw [hs]
    simp only [List.nil_append] at hnodup
    simp only [ht, decide_eq_true_eq, List.nil_append] at hiff ⊢
    rw [hiff]
    simp [hnodup]
  · rw [hs]
    simp only [List.nil_append] at hnodup
    simp [hnodup]

/-- Two nodes in a line. -/
theorem validates_line :
    validateGraphEdges ⟨fun _ l => l, fun _ l => List.Perm.refl l⟩ [0, 1] [[0, 1]] = true ↔
      (∀ e ∈ [[0, 1]], ∃ a ∈ [0, 1], ∃ b ∈ [0, 1], e = [a, b]) ∧ [[0, 1]].Nodup ∧ Acyclic fun a b => [a, b] ∈ [[0, 1]] :=
  validates_iff ⟨fun _ l => l, fun _ l => List.Perm.refl l⟩ (by decide) [[0, 1]]

example : validateGraphEdges ⟨fun _ l => l.reverse, fun _ l => l.reverse_perm⟩ [0, 1, 2] [[0, 1], [0, 2], [2, 1]] = true := by decide

example : validateGraphEdges ⟨fun _ l => l, fun _ l => List.Perm.refl l⟩ [0, 1, 2] [[0, 1], [1, 2], [2, 1]] = false := by decide

end BettingHelper.Governance
