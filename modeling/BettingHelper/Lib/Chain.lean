/-
  BettingHelper.Lib.Chain — hash chains kept side by side in one append-only log.

  A log is a list of links, each under a key. The links under one key form a chain:
  they are numbered 1, 2, … in log order, each names the digest of the one before it
  (the seed for the first) and carries the digest that `step` makes of its key, its
  number, its payload and that prior digest.

  Proved of a linked log:
  - `seqs_eq`: under every key the numbers are exactly 1..n, in order.
  - `link_unique` / `link_exists`: one link a number, and one for every number.
  - `cursor_eq_climb`: the digest at number k is the k-fold application of `step` to
    the seed along the payloads.
-/

import Mathlib

namespace BettingHelper.Lib.Chain

structure Link (κ π δ : Type) where
  key : κ
  seq : Nat
  payload : π
  prior : δ
  cursor : δ
  deriving DecidableEq, Repr

variable {κ π δ : Type} [DecidableEq κ] (seed : δ) (step : κ → Nat → π → δ → δ)

/-- The links under one key, in log order. -/
def chainOf (l : List (Link κ π δ)) (k : κ) : List (Link κ π δ) := l.filter (·.key = k)

def height (l : List (Link κ π δ)) (k : κ) : Nat := (chainOf l k).length

/-- The digest the next link under `k` has to name. -/
def head (l : List (Link κ π δ)) (k : κ) : δ := ((chainOf l k).getLast?.map (·.cursor)).getD seed

/-- `step` along a list of payloads, the first of which has number `n + 1`. -/
def climb (k : κ) : δ → Nat → List π → δ
  | d, _, [] => d
  | d, n, p :: ps => climb k (step k (n + 1) p d) (n + 1) ps

inductive Linked : List (Link κ π δ) → Prop
  | nil : Linked []
  | snoc {l : List (Link κ π δ)} {c : Link κ π δ} : Linked l → c.seq = height l c.key + 1 →
      c.prior = head seed l c.key → c.cursor = step c.key c.seq c.payload c.prior → Linked (l ++ [c])

/-! ## One more link -/

variable {seed} {step}

theorem chainOf_snoc_same {l : List (Link κ π δ)} {c : Link κ π δ} {k : κ} (h : c.key = k) :
    chainOf (l ++ [c]) k = chainOf l k ++ [c] := by simp [chainOf, h]

theorem chainOf_snoc_ne {l : List (Link κ π δ)} {c : Link κ π δ} {k : κ} (h : c.key ≠ k) :
    chainOf (l ++ [c]) k = chainOf l k := by simp [chainOf, h]

theorem height_snoc_same {l : List (Link κ π δ)} {c : Link κ π δ} {k : κ} (h : c.key = k) :
    height (l ++ [c]) k = height l k + 1 := by simp [height, chainOf_snoc_same h]

theorem height_snoc_ne {l : List (Link κ π δ)} {c : Link κ π δ} {k : κ} (h : c.key ≠ k) :
    height (l ++ [c]) k = height l k := by simp [height, chainOf_snoc_ne h]

theorem head_snoc_same {l : List (Link κ π δ)} {c : Link κ π δ} {k : κ} (h : c.key = k) :
    head seed (l ++ [c]) k = c.cursor := by simp [head, chainOf_snoc_same h]

theorem head_snoc_ne {l : List (Link κ π δ)} {c : Link κ π δ} {k : κ} (h : c.key ≠ k) :
    head seed (l ++ [c]) k = head seed l k := by simp [head, chainOf_snoc_ne h]

theorem height_eq_zero {l : List (Link κ π δ)} {k : κ} (h : ∀ c ∈ l, c.key ≠ k) : height l k = 0 := by
  simpa [height, chainOf] using h

theorem head_of_height_zero {l : List (Link κ π δ)} {k : κ} (h : height l k = 0) : head seed l k = seed := by
  have : chainOf l k = [] := List.eq_nil_of_length_eq_zero h
  simp [head, this]

omit [DecidableEq κ] in
theorem climb_append (k : κ) : ∀ (ps qs : List π) (d : δ) (n : Nat),
    climb step k d n (ps ++ qs) = climb step k (climb step k d n ps) (n + ps.length) qs := by
  intro ps
  induction ps with
  | nil => intro qs d n; rfl
  | cons p ps ih =>
    intro qs d n
    simp only [List.cons_append, climb, ih, List.length_cons]
    congr 1; omega

omit [DecidableEq κ] in
/-- Only what `step` reads of the payloads counts. -/
theorem climb_map {ν : Type} (f : π → ν) (step : κ → Nat → ν → δ → δ) (k : κ) : ∀ (ps : List π) (d : δ) (n : Nat),
    climb step k d n (ps.map f) = climb (fun k n p => step k n (f p)) k d n ps := by
  intro ps
  induction ps with
  | nil => intro d n; rfl
  | cons p ps ih => intro d n; exact ih _ _

/-! ## Other payloads -/

def Link.mapPayload {ν : Type} (f : π → ν) (c : Link κ π δ) : Link κ ν δ := ⟨c.key, c.seq, f c.payload, c.prior, c.cursor⟩

theorem chainOf_map {ν : Type} (f : π → ν) (l : List (Link κ π δ)) (k : κ) :
    chainOf (l.map (·.mapPayload f)) k = (chainOf l k).map (·.mapPayload f) := by
  rw [chainOf, List.filter_map]
  rfl

theorem height_map {ν : Type} (f : π → ν) (l : List (Link κ π δ)) (k : κ) :
    height (l.map (·.mapPayload f)) k = height l k := by
  rw [height, chainOf_map, List.length_map]
  rfl

theorem head_map {ν : Type} (f : π → ν) (l : List (Link κ π δ)) (k : κ) :
    head seed (l.map (·.mapPayload f)) k = head seed l k := by
  rw [head, chainOf_map, List.getLast?_map, Option.map_map]
  rfl

/-! ## Linked logs -/

theorem seqs_eq {l : List (Link κ π δ)} (h : Linked seed step l) (k : κ) :
    (chainOf l k).map (·.seq) = List.range' 1 (height l k) := by
  induction h with
  | nil => rfl
  | @snoc l c _ hs _ _ ih =>
    by_cases e : c.key = k
    · rw [chainOf_snoc_same e, height_snoc_same e, List.map_append, ih, List.range'_concat]
      simp [hs, e, Nat.add_comm]
    · rw [chainOf_snoc_ne e, height_snoc_ne e, ih]

theorem mem_chainOf {l : List (Link κ π δ)} {c : Link κ π δ} (h : c ∈ l) : c ∈ chainOf l c.key := by
  simpa [chainOf] using h

theorem seq_bounds {l : List (Link κ π δ)} (h : Linked seed step l) {c : Link κ π δ} (hc : c ∈ l) :
    1 ≤ c.seq ∧ c.seq ≤ height l c.key := by
  have hm : c.seq ∈ (chainOf l c.key).map (·.seq) := List.mem_map_of_mem (mem_chainOf hc)
  rw [seqs_eq h, List.mem_range'_1] at hm
  omega

theorem link_unique {l : List (Link κ π δ)} (h : Linked seed step l) {c d : Link κ π δ} (hc : c ∈ l) (hd : d ∈ l)
    (hk : c.key = d.key) (hs : c.seq = d.seq) : c = d := by
  induction h with
  | nil => cases hc
  | @snoc l e hl hes _ _ ih =>
    rcases List.mem_append.mp hc with hc | hc <;> rcases List.mem_append.mp hd with hd | hd
    · exact ih hc hd
    · have := seq_bounds hl hc
      simp only [List.mem_singleton] at hd; subst hd
      rw [← hk] at hes; omega
    · have := seq_bounds hl hd
      simp only [List.mem_singleton] at hc; subst hc
      rw [hk] at hes; omega
    · simp only [List.mem_singleton] at hc hd; rw [hc, hd]

theorem link_exists {l : List (Link κ π δ)} (h : Linked seed step l) {k : κ} {n : Nat} (h1 : 1 ≤ n)
    (hn : n ≤ height l k) : ∃ c ∈ l, c.key = k ∧ c.seq = n := by
  have hm : n ∈ (chainOf l k).map (·.seq) := by rw [seqs_eq h, List.mem_range'_1]; omega
  obtain ⟨c, hc, hs⟩ := List.mem_map.mp hm
  simp only [chainOf, List.mem_filter, decide_eq_true_eq] at hc
  exact ⟨c, hc.1, hc.2, hs⟩

theorem seq_pairwise {l : List (Link κ π δ)} (h : Linked seed step l) (k : κ) :
    (chainOf l k).Pairwise fun c d => c.seq < d.seq := by
  have hr : ((chainOf l k).map (·.seq)).Pairwise (· < ·) := by
    rw [seqs_eq h]
    exact List.pairwise_lt_range'
  exact List.pairwise_map.mp hr

/-- Over an ascending list, the greatest is the last. -/
theorem argmax_ascending {α : Type} (f : α → Nat) {l : List α} (h : l.Pairwise fun a b => f a < f b) :
    l.argmax f = l.getLast? := by
  induction l using List.reverseRecOn with
  | nil => rfl
  | append_singleton l a ih =>
    rw [List.pairwise_append] at h
    rw [List.argmax_concat, ih h.1, List.getLast?_concat]
    cases hl : l.getLast? with
    | none => rfl
    | some c => exact if_pos (h.2.2 c (List.mem_of_getLast? hl) a (by simp))

theorem positions_nodup {l : List (Link κ π δ)} (h : Linked seed step l) :
    (l.map fun c => (c.key, c.seq)).Nodup := by
  induction h with
  | nil => simp
  | @snoc l c hl hs _ _ ih =>
    rw [List.map_append, List.nodup_append]
    refine ⟨ih, by simp, ?_⟩
    intro a ha b hb e
    obtain ⟨d, hd, rfl⟩ := List.mem_map.mp ha
    simp only [List.map_cons, List.map_nil, List.mem_singleton] at hb
    subst hb
    obtain ⟨hk, hq⟩ := Prod.mk.injEq .. ▸ e
    have := (seq_bounds hl hd).2
    rw [hk] at this
    omega

theorem find_unique {α : Type} {p : α → Bool} {l : List α} {a : α} (ha : a ∈ l) (hp : p a)
    (hu : ∀ b ∈ l, p b → b = a) : l.find? p = some a := by
  cases hf : l.find? p with
  | none => exact absurd hp (List.find?_eq_none.mp hf a ha)
  | some b => rw [hu b (List.mem_of_find?_eq_some hf) (List.find?_some hf)]

theorem find_link {l : List (Link κ π δ)} (h : Linked seed step l) {c : Link κ π δ} (hc : c ∈ l) :
    l.find? (fun d => d.key = c.key ∧ d.seq = c.seq) = some c := by
  refine find_unique hc (by simp) fun d hd hp => ?_
  simp only [decide_eq_true_eq] at hp
  exact link_unique h hd hc hp.1 hp.2

/-- There is no link at a number past the height. -/
theorem find_past {l : List (Link κ π δ)} (h : Linked seed step l) {k : κ} {n : Nat} (hn : height l k < n) :
    l.find? (fun d => d.key = k ∧ d.seq = n) = none := by
  refine List.find?_eq_none.mpr fun d hd => ?_
  simp only [decide_eq_true_eq, not_and]
  rintro rfl rfl
  have := (seq_bounds h hd).2
  omega

/-- The last link under a key has the height for number and the head for digest. -/
theorem last_link {l : List (Link κ π δ)} (h : Linked seed step l) {k : κ} {c : Link κ π δ}
    (hc : (chainOf l k).getLast? = some c) : c.seq = height l k ∧ c.cursor = head seed l k := by
  refine ⟨?_, by simp [head, hc]⟩
  have hl : ((chainOf l k).map (·.seq)).getLast? = some c.seq := by rw [List.getLast?_map, hc]; rfl
  have hpos : 0 < (chainOf l k).length := List.length_pos_of_mem (List.mem_of_getLast? hc)
  rw [seqs_eq h, List.getLast?_range'] at hl
  unfold height at hl ⊢
  split at hl
  · omega
  · simp only [Option.some.injEq] at hl
    omega

theorem seqs_max {l : List (Link κ π δ)} (h : Linked seed step l) (k : κ) :
    ((chainOf l k).map (·.seq)).foldl max 0 = height l k := by
  induction h with
  | nil => rfl
  | @snoc l c _ hs _ _ ih =>
    by_cases e : c.key = k
    · rw [chainOf_snoc_same e, height_snoc_same e, List.map_append, List.foldl_append, ih]
      simp only [List.map_cons, List.map_nil, List.foldl_cons, List.foldl_nil, hs, e]
      omega
    · rw [chainOf_snoc_ne e, height_snoc_ne e, ih]

/-- The digest the log stands at, under each key, is the chain over all its payloads. -/
theorem head_eq_climb {l : List (Link κ π δ)} (h : Linked seed step l) (k : κ) :
    head seed l k = climb step k seed 0 ((chainOf l k).map (·.payload)) := by
  induction h with
  | nil => rfl
  | @snoc l c _ hs hp hc ih =>
    by_cases e : c.key = k
    · rw [head_snoc_same e, chainOf_snoc_same e, List.map_append, climb_append, ← ih, hc, hp, hs, e]
      simp [climb, height]
    · rw [head_snoc_ne e, chainOf_snoc_ne e, ih]

/-- The digest at number k is the k-fold application of `step`, from the seed. -/
theorem cursor_eq_climb {l : List (Link κ π δ)} (h : Linked seed step l) {c : Link κ π δ} (hc : c ∈ l) :
    c.cursor = climb step c.key seed 0 (((chainOf l c.key).map (·.payload)).take c.seq) := by
  induction h with
  | nil => cases hc
  | @snoc l e hl hs hp hx ih =>
    have hle := Linked.snoc hl hs hp hx
    rcases List.mem_append.mp hc with hc | hc
    · have hb := (seq_bounds hl hc).2
      rw [ih hc]
      by_cases he : e.key = c.key
      · rw [chainOf_snoc_same he, List.map_append, List.take_append_of_le_length (by simpa [height] using hb)]
      · rw [chainOf_snoc_ne he]
    · simp only [List.mem_singleton] at hc; subst hc
      have hd : head seed (l ++ [c]) c.key = c.cursor := head_snoc_same rfl
      rw [← hd, head_eq_climb hle]
      congr 1
      rw [List.take_of_length_le]
      simp [chainOf_snoc_same, hs, height]

/-- The digest a link names is the digest the log stood at before it. -/
theorem prior_eq {l : List (Link κ π δ)} (h : Linked seed step l) {c : Link κ π δ} (hc : c ∈ l) :
    c.prior = climb step c.key seed 0 (((chainOf l c.key).map (·.payload)).take (c.seq - 1)) ∧
      c.cursor = step c.key c.seq c.payload c.prior := by
  induction h with
  | nil => cases hc
  | @snoc l e hl hs hp hx ih =>
    rcases List.mem_append.mp hc with hc | hc
    · have hb := (seq_bounds hl hc).2
      refine ⟨?_, (ih hc).2⟩
      rw [(ih hc).1]
      by_cases he : e.key = c.key
      · rw [chainOf_snoc_same he, List.map_append,
          List.take_append_of_le_length (by simp only [List.length_map]; unfold height at hb; omega)]
      · rw [chainOf_snoc_ne he]
    · simp only [List.mem_singleton] at hc; subst hc
      refine ⟨?_, hx⟩
      rw [hp, head_eq_climb hl, chainOf_snoc_same rfl, List.map_append, hs, Nat.add_sub_cancel,
        List.take_append_of_le_length (by simp [height]), List.take_of_length_le (by simp [height])]

end BettingHelper.Lib.Chain
