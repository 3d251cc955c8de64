/-
  BettingHelper.Lib.FileTree — directories, files and links as a finite map.

  A tree lists what it holds by path, in the order in which a walk meets it that takes the
  names of a directory in order and goes down into a directory at once. The path `[]` is the
  root's own; a tree without it is not there. What the operations of a file system leave is
  told by `find` alone (`find_mkdirs`, `find_write`); `mkdirs_iff` and `write_iff` say when
  they do not fail, `mkdirs_same_iff` and `write_same` when they change nothing.
-/

import Mathlib

namespace BettingHelper.Lib.FileTree

variable {ν F : Type}

inductive Entry (F : Type) where
  | directory
  | file (f : F)
  /-- A symbolic link, and the file it leads to, if it leads to one. -/
  | symlink (target : Option F)
  /-- A socket, a pipe, a device. -/
  | special
  deriving DecidableEq

/-- The file that is read where this entry stands. -/
def Entry.content : Entry F → Option F
  | .file f => some f
  | .symlink target => target
  | _ => none

variable [LinearOrder ν]

/-! ## Lists by path -/

/-- An entry put in the place of the one at its path, or where a walk would meet it. -/
def put (p : List ν) (e : Entry F) : List (List ν × Entry F) → List (List ν × Entry F)
  | [] => [(p, e)]
  | m :: l => if p < m.1 then (p, e) :: m :: l else if p = m.1 then (p, e) :: l else m :: put p e l

section Put

variable {p q : List ν} {e : Entry F} {l : List (List ν × Entry F)}

theorem mem_of_lookup (h : l.lookup p = some e) : (p, e) ∈ l := by
  obtain ⟨l₁, l₂, rfl, -⟩ := List.lookup_eq_some_iff.mp h
  exact List.mem_append_right _ List.mem_cons_self

theorem lookup_of_mem (hl : l.Pairwise fun a b => a.1 < b.1) (h : (p, e) ∈ l) : l.lookup p = some e := by
  obtain ⟨l₁, l₂, rfl⟩ := List.append_of_mem h
  refine List.lookup_eq_some_iff.mpr ⟨l₁, l₂, rfl, fun m hm => ?_⟩
  have hlt := (List.pairwise_append.mp hl).2.2 m hm (p, e) List.mem_cons_self
  exact bne_iff_ne.mpr (ne_of_gt hlt)

theorem lookup_put (p q : List ν) (e : Entry F) (l : List (List ν × Entry F)) :
    (put p e l).lookup q = if q = p then some e else l.lookup q := by
  induction l with
  | nil =>
    rw [put, List.lookup_cons]
    by_cases h : q = p
    · rw [if_pos h, beq_iff_eq.mpr h]
    · rw [if_neg h, beq_false_of_ne h]
  | cons m l ih =>
    rw [put]
    by_cases hq : q = p
    · subst hq
      rw [if_pos rfl]
      split_ifs with hlt heq
      · rw [List.lookup_cons, beq_self_eq_true]
      · rw [List.lookup_cons, beq_self_eq_true]
      · rw [List.lookup_cons, beq_false_of_ne heq, ih, if_pos rfl]
    · rw [if_neg hq] at ih ⊢
      split_ifs with hlt heq
      · rw [List.lookup_cons, beq_false_of_ne hq]
      · rw [List.lookup_cons, List.lookup_cons, ← heq, beq_false_of_ne hq]
      · rw [List.lookup_cons, List.lookup_cons, ih]

theorem mem_put {m : List ν × Entry F} (h : m ∈ put p e l) : m = (p, e) ∨ m ∈ l := by
  induction l with
  | nil => exact .inl (List.mem_singleton.mp h)
  | cons n l ih =>
    rw [put] at h
    split_ifs at h with hlt heq
    · exact List.mem_cons.mp h
    · exact (List.mem_cons.mp h).imp_right (List.mem_cons_of_mem _)
    · rcases List.mem_cons.mp h with h | h
      · exact .inr (h ▸ List.mem_cons_self)
      · exact (ih h).imp_right (List.mem_cons_of_mem _)

theorem put_sorted (h : l.Pairwise fun a b => a.1 < b.1) : (put p e l).Pairwise fun a b => a.1 < b.1 := by
  induction l with
  | nil => exact List.pairwise_singleton _ _
  | cons m l ih =>
    obtain ⟨hm, hl⟩ := List.pairwise_cons.mp h
    rw [put]
    split_ifs with hlt heq
    · refine List.pairwise_cons.mpr ⟨fun b hb => ?_, h⟩
      rcases List.mem_cons.mp hb with rfl | hb
      · exact hlt
      · exact hlt.trans (hm b hb)
    · refine List.pairwise_cons.mpr ⟨fun b hb => ?_, hl⟩
      show p < b.1
      rw [heq]
      exact hm b hb
    · refine List.pairwise_cons.mpr ⟨fun b hb => ?_, ih hl⟩
      rcases mem_put hb with rfl | hb
      · exact lt_of_le_of_ne (not_lt.mp hlt) (Ne.symm heq)
      · exact hm b hb

/-- What is there already is not moved. -/
theorem put_same (h : l.Pairwise fun a b => a.1 < b.1) (hp : (p, e) ∈ l) : put p e l = l := by
  induction l with
  | nil => cases hp
  | cons m l ih =>
    obtain ⟨hm, hl⟩ := List.pairwise_cons.mp h
    rw [put]
    rcases List.mem_cons.mp hp with rfl | hp
    · rw [if_neg (lt_irrefl _), if_pos rfl]
    · have hlt : m.1 < p := hm _ hp
      rw [if_neg hlt.le.not_gt, if_neg hlt.ne', ih hl hp]

/-- What is put at a path is nothing to the others. -/
theorem filter_put (p : List ν) (e : Entry F) (l : List (List ν × Entry F)) :
    (put p e l).filter (·.1 ≠ p) = l.filter (·.1 ≠ p) := by
  induction l with
  | nil => simp [put]
  | cons m l ih =>
    rw [put]
    split_ifs with hlt heq
    · simp
    · simp [← heq]
    · rw [List.filter_cons, List.filter_cons, ih]

/-- Two lists in the order of their paths with the same members are one. -/
theorem sorted_ext {α : Type} {key : α → List ν} {l m : List α} (hl : l.Pairwise fun a b => key a < key b)
    (hm : m.Pairwise fun a b => key a < key b) (h : ∀ a, a ∈ l ↔ a ∈ m) : l = m := by
  have hnodup : ∀ {l : List α}, (l.Pairwise fun a b => key a < key b) → l.Nodup := fun hl =>
    hl.imp fun hlt he => absurd (he ▸ hlt) (lt_irrefl _)
  refine List.Perm.eq_of_pairwise ?_ hl hm ((List.perm_ext_iff_of_nodup (hnodup hl) (hnodup hm)).mpr h)
  exact fun a b _ _ hab hba => absurd hab hba.not_gt

end Put

/-! ## Trees -/

structure Tree (ν F : Type) [LinearOrder ν] where
  entries : List (List ν × Entry F)
  sorted : entries.Pairwise fun a b => a.1 < b.1
  parents : ∀ p n e, (p ++ [n], e) ∈ entries → (p, Entry.directory) ∈ entries

namespace Tree

/-- Where there is nothing. -/
def absent : Tree ν F := ⟨[], List.Pairwise.nil, by simp⟩

def find (t : Tree ν F) (p : List ν) : Option (Entry F) := t.entries.lookup p

theorem mem_iff_find {t : Tree ν F} {p : List ν} {e : Entry F} : (p, e) ∈ t.entries ↔ t.find p = some e :=
  ⟨lookup_of_mem t.sorted, mem_of_lookup⟩

/-- Where an entry can be put: below a directory, and not in the place of one. -/
def Open (t : Tree ν F) (p : List ν) : Prop :=
  (p = [] ∨ t.find p.dropLast = some .directory) ∧ t.find p ≠ some .directory

instance [DecidableEq F] (t : Tree ν F) (p : List ν) : Decidable (t.Open p) := inferInstanceAs (Decidable (_ ∧ _))

def put (t : Tree ν F) (p : List ν) (e : Entry F) (h : t.Open p) : Tree ν F where
  entries := FileTree.put p e t.entries
  sorted := put_sorted t.sorted
  parents := by
    intro q n x hx
    have hkept : t.find q = some .directory → q ≠ p → (q, Entry.directory) ∈ FileTree.put p e t.entries := by
      intro hq hne
      refine mem_of_lookup ?_
      rw [lookup_put, if_neg hne]
      exact hq
    rcases mem_put hx with hx | hx
    · obtain rfl : q ++ [n] = p := congrArg (·.1) hx
      rcases h.1 with h1 | h1
      · simp at h1
      · rw [List.dropLast_concat] at h1
        exact hkept h1 (by simp)
    · have hq := mem_iff_find.mp (t.parents q n x hx)
      exact hkept hq fun hqp => h.2 (hqp ▸ hq)

variable {t : Tree ν F} {p q : List ν} {e : Entry F}

theorem ext_entries {t u : Tree ν F} (h : t.entries = u.entries) : t = u := by
  cases t
  cases u
  cases h
  rfl

@[simp] theorem find_put (h : t.Open p) : (t.put p e h).find q = if q = p then some e else t.find q := lookup_put p q e t.entries

theorem put_eq (h : t.Open p) (he : t.find p = some e) : t.put p e h = t :=
  ext_entries (put_same t.sorted (mem_iff_find.mpr he))

/-- What is in a tree is in its directories. -/
theorem find_parent {n : ν} (h : t.find (p ++ [n]) = some e) : t.find p = some .directory :=
  mem_iff_find.mp (t.parents p n e (mem_iff_find.mpr h))

theorem open_of_find (h : t.find p = some e) (hne : e ≠ .directory) : t.Open p := by
  refine ⟨?_, by rw [h]; exact fun he => hne (Option.some.inj he)⟩
  rcases List.eq_nil_or_concat p with rfl | ⟨q, n, rfl⟩
  · exact .inl rfl
  · right
    rw [List.concat_eq_append] at h ⊢
    rw [List.dropLast_concat]
    exact find_parent h

/-- The file that stands at a path itself. -/
def fileAt (t : Tree ν F) (p : List ν) : Option F :=
  match t.find p with
  | some (.file f) => some f
  | _ => none

theorem fileAt_some {f : F} : t.fileAt p = some f ↔ t.find p = some (.file f) := by
  rw [fileAt]
  cases t.find p with
  | none => simp
  | some e => cases e <;> simp

theorem fileAt_congr {u : Tree ν F} (h : u.find p = t.find p) : u.fileAt p = t.fileAt p := by rw [fileAt, fileAt, h]

theorem prefix_dropLast {α : Type} {p q : List α} (hp : p ≠ []) : q <+: p.dropLast ↔ q <+: p ∧ q ≠ p := by
  rcases List.eq_nil_or_concat p with rfl | ⟨r, n, rfl⟩
  · exact absurd rfl hp
  · rw [List.concat_eq_append, List.dropLast_concat, List.prefix_concat_iff]
    constructor
    · intro h
      refine ⟨.inr h, fun he => ?_⟩
      have := h.length_le
      rw [he, List.length_append, List.length_singleton] at this
      omega
    · rintro ⟨h | h, hne⟩
      · exact absurd h hne
      · exact h

/-- Everything above what is found is a directory. -/
theorem find_ancestor (h : t.find p = some e) (hq : q <+: p) (hne : q ≠ p) : t.find q = some .directory := by
  obtain ⟨r, rfl⟩ := hq
  induction r generalizing q with
  | nil => simp at hne
  | cons n r ih =>
    have hn : q ++ n :: r = q ++ [n] ++ r := by simp
    rw [hn] at h
    rcases List.eq_nil_or_concat r with rfl | ⟨s, m, rfl⟩
    · rw [List.append_nil] at h
      exact find_parent h
    · exact find_parent (ih h (by simp))

/-! ## Operations -/

/-- What a system says to paths, whatever stands there. -/
structure System (ν : Type) where
  /-- It takes the path at all. -/
  takes : List ν → Bool
  /-- It makes an entry there. -/
  admits : List ν → Bool

section Operations

variable [DecidableEq F] (sys : System ν)

/-- A directory, unless there is one; `none` where the system refuses. -/
def mkdir (t : Tree ν F) (p : List ν) : Option (Tree ν F) :=
  if t.find p = some .directory then some t
  else if h : t.find p = none ∧ sys.admits p ∧ t.Open p then some (t.put p .directory h.2.2) else none

/-- The directories from `here` down, as far as they can be made, and whether all of them are there then. -/
def mkdirs (t : Tree ν F) (here : List ν) : List ν → Tree ν F × Bool
  | [] =>
    match mkdir sys t here with
    | some u => (u, true)
    | none => (t, false)
  | n :: below =>
    match mkdir sys t here with
    | some u => mkdirs u (here ++ [n]) below
    | none => (t, false)

/-- The file at a path written: `content` of the file that was there, or of none. -/
def write (t : Tree ν F) (p : List ν) (content : Option F → F) : Option (Tree ν F) :=
  if (t.fileAt p).isSome ∨ t.find p = none ∧ sys.admits p then
    if h : sys.takes p ∧ t.Open p then some (t.put p (.file (content (t.fileAt p))) h.2) else none
  else none

/-- The directories above a path, then the file at it. -/
def place (t : Tree ν F) (p : List ν) (content : Option F → F) : Tree ν F × Bool :=
  match (if p = [] then (t, true) else if sys.takes p.dropLast then mkdirs sys t [] p.dropLast else (t, false)) with
  | (u, false) => (u, false)
  | (u, true) =>
    match write sys u p content with
    | some v => (v, true)
    | none => (u, false)

end Operations

/-- A directory, or room for one. -/
def Makes (sys : System ν) (t : Tree ν F) (p : List ν) : Prop :=
  t.find p = some .directory ∨ t.find p = none ∧ sys.admits p

theorem Makes.congr {sys : System ν} {u : Tree ν F} (h : u.find q = t.find q) : u.Makes sys q ↔ t.Makes sys q := by
  rw [Makes, Makes, h]

section Directories

variable [DecidableEq F] {sys : System ν} {u : Tree ν F} {here below : List ν}

theorem find_mkdir (h : mkdir sys t p = some u) : t.Makes sys p ∧ u.find q = if q = p then some .directory else t.find q := by
  rw [mkdir] at h
  split_ifs at h with hd hn
  · cases h
    refine ⟨.inl hd, ?_⟩
    split_ifs with hq
    · rw [hq, hd]
    · rfl
  · cases h
    exact ⟨.inr ⟨hn.1, hn.2.1⟩, find_put hn.2.2⟩

theorem mkdir_none (hp : p = [] ∨ t.find p.dropLast = some .directory) (h : mkdir sys t p = none) : ¬t.Makes sys p := by
  rw [mkdir] at h
  split_ifs at h with hd hn
  rintro (hm | ⟨hm, ha⟩)
  · exact hd hm
  · exact hn ⟨hm, ha, hp, hd⟩

/-- Nothing that is there is lost, whether the directories are made or not. -/
theorem find_mkdirs_some (h : t.find q = some e) : (mkdirs sys t here below).1.find q = some e := by
  have hstep : ∀ {t u : Tree ν F} {p}, t.find q = some e → mkdir sys t p = some u → u.find q = some e := by
    intro t u p ht hu
    obtain ⟨hm, hf⟩ := @find_mkdir _ _ _ t p q _ sys u hu
    rw [hf]
    split_ifs with hq
    · rcases hm with hm | ⟨hm, -⟩
      · rw [hq, hm] at ht
        exact ht
      · rw [hq, hm] at ht
        cases ht
    · exact ht
  induction below generalizing t here with
  | nil =>
    rw [mkdirs]
    split
    · next u hu => exact hstep h hu
    · exact h
  | cons n below ih =>
    rw [mkdirs]
    split
    · next u hu => exact ih (hstep h hu)
    · exact h

/-- Every directory on the way is there. -/
theorem find_mkdirs (h : mkdirs sys t here below = (u, true)) {r : List ν} (hr : r <+: below) :
    u.find (here ++ r) = some .directory := by
  induction below generalizing t here r with
  | nil =>
    rw [mkdirs] at h
    split at h
    · next v hv =>
      cases h
      rw [List.prefix_nil.mp hr, List.append_nil, (find_mkdir hv).2, if_pos rfl]
    · cases h
  | cons n below ih =>
    rw [mkdirs] at h
    split at h
    · next v hv =>
      rcases List.prefix_cons_iff.mp hr with rfl | ⟨r, rfl, hin⟩
      · have hd := @find_mkdirs_some _ _ _ v here _ _ sys (here ++ [n]) below (by rw [(find_mkdir hv).2, if_pos rfl])
        rw [List.append_nil]
        rw [h] at hd
        exact hd
      · have := ih h hin
        rwa [List.append_assoc] at this
    · cases h

/-- What is not on the way is as it was. -/
theorem find_mkdirs_ne (hq : ∀ r, r <+: below → q ≠ here ++ r) : (mkdirs sys t here below).1.find q = t.find q := by
  have hhere : q ≠ here := fun h => hq [] List.nil_prefix (by rw [h, List.append_nil])
  induction below generalizing t here with
  | nil =>
    rw [mkdirs]
    split
    · next u hu => rw [(find_mkdir hu).2, if_neg hhere]
    · rfl
  | cons n below ih =>
    rw [mkdirs]
    split
    · next u hu =>
      have hbelow : ∀ r, r <+: below → q ≠ here ++ [n] ++ r := by
        intro r hr
        rw [List.append_assoc]
        exact hq (n :: r) (List.cons_prefix_cons.mpr ⟨rfl, hr⟩)
      rw [ih hbelow fun h => hbelow [] List.nil_prefix (by rw [h, List.append_nil]), (find_mkdir hu).2, if_neg hhere]
    · rfl

/-- The directories are made when there is one, or room for one, everywhere on the way. -/
theorem mkdirs_iff (hp : here = [] ∨ t.find here.dropLast = some .directory) :
    (mkdirs sys t here below).2 = true ↔ ∀ r, r <+: below → t.Makes sys (here ++ r) := by
  induction below generalizing t here with
  | nil =>
    rw [mkdirs]
    split
    · next u hu =>
      refine iff_of_true rfl fun r hr => ?_
      rw [List.prefix_nil.mp hr, List.append_nil]
      exact (@find_mkdir _ _ _ t here here _ sys u hu).1
    · next hn =>
      refine iff_of_false (by simp) fun h => mkdir_none hp hn ?_
      have := h [] List.nil_prefix
      rwa [List.append_nil] at this
  | cons n below ih =>
    rw [mkdirs]
    split
    · next u hu =>
      have hdir : u.find here = some .directory := by rw [(find_mkdir hu).2, if_pos rfl]
      have hbelow : ∀ r, u.Makes sys (here ++ [n] ++ r) ↔ t.Makes sys (here ++ n :: r) := by
        intro r
        rw [List.append_assoc]
        refine Makes.congr ?_
        rw [(find_mkdir hu).2, if_neg (by simp)]
      rw [ih (.inr (by rw [List.dropLast_concat]; exact hdir))]
      constructor
      · intro h r hr
        rcases List.prefix_cons_iff.mp hr with rfl | ⟨r, rfl, hin⟩
        · rw [List.append_nil]
          exact (@find_mkdir _ _ _ t here here _ sys u hu).1
        · exact (hbelow r).mp (h r hin)
      · exact fun h r hr => (hbelow r).mpr (h (n :: r) (List.cons_prefix_cons.mpr ⟨rfl, hr⟩))
    · next hn =>
      refine iff_of_false (by simp) fun h => mkdir_none hp hn ?_
      have := h [] List.nil_prefix
      rwa [List.append_nil] at this

end Directories

/-! ## Writing files -/

section Files

variable [DecidableEq F] {sys : System ν} {u : Tree ν F} {content : Option F → F}

/-- A file, or room for one. -/
def Takes (sys : System ν) (t : Tree ν F) (p : List ν) : Prop :=
  sys.takes p ∧ ((t.fileAt p).isSome ∨ t.find p = none ∧ sys.admits p)

theorem find_write (h : write sys t p content = some u) : t.Takes sys p ∧
    u.find q = if q = p then some (.file (content (t.fileAt p))) else t.find q := by
  rw [write] at h
  split_ifs at h with hf ho
  cases h
  exact ⟨⟨ho.1, hf⟩, find_put ho.2⟩

theorem write_iff (hp : p = [] ∨ t.find p.dropLast = some .directory) :
    (write sys t p content).isSome ↔ t.Takes sys p := by
  constructor
  · intro h
    obtain ⟨u, hu⟩ := Option.isSome_iff_exists.mp h
    exact (@find_write _ _ _ t p p _ sys u content hu).1
  · rintro ⟨ht, hf⟩
    have hne : t.find p ≠ some .directory := by
      rcases hf with hf | ⟨hf, -⟩
      · obtain ⟨f, hf⟩ := Option.isSome_iff_exists.mp hf
        rw [fileAt_some.mp hf]
        simp
      · rw [hf]
        simp
    rw [write, if_pos hf, dif_pos ⟨ht, hp, hne⟩]
    rfl

/-- A file that is as it is to be stays. -/
theorem write_same {f : F} (ht : sys.takes p) (hf : t.find p = some (.file f)) (hc : content (some f) = f) :
    write sys t p content = some t := by
  have ho : t.Open p := open_of_find hf (by simp)
  have hat := fileAt_some.mpr hf
  rw [write, if_pos (.inl (by rw [hat]; rfl)), dif_pos ⟨ht, ho⟩, Option.some.injEq]
  exact put_eq ho (by rw [hat, hc, hf])

/-- A path to which a file can be brought. -/
structure Reaches (sys : System ν) (t : Tree ν F) (p : List ν) : Prop where
  parent : p ≠ [] → sys.takes p.dropLast
  above : ∀ q, q <+: p → q ≠ p → t.Makes sys q
  here : t.Takes sys p

/-- What is in the way of a file is met before any directory is made. -/
def Early (sys : System ν) (t : Tree ν F) (p : List ν) : Prop :=
  (p ≠ [] ∧ ¬sys.takes p.dropLast) ∨
    (∃ q, q <+: p ∧ q ≠ p ∧ ¬t.Makes sys q ∧ ∀ r, r <+: q → r ≠ q → t.find r = some .directory) ∨
    ∀ q, q <+: p → q ≠ p → t.find q = some .directory

theorem mkdirs_above (hp : p ≠ []) : (mkdirs sys t [] p.dropLast).2 = true ↔ ∀ q, q <+: p → q ≠ p → t.Makes sys q := by
  rw [mkdirs_iff (.inl rfl)]
  constructor
  · exact fun h q hq hne => h q ((prefix_dropLast hp).mpr ⟨hq, hne⟩)
  · exact fun h q hq => h q ((prefix_dropLast hp).mp hq).1 ((prefix_dropLast hp).mp hq).2

/-- The tree with the directories above a path, as far as they can be made. -/
theorem place_eq (t : Tree ν F) (p : List ν) (content : Option F → F) : place sys t p content =
    if p = [] ∨ sys.takes p.dropLast ∧ (mkdirs sys t [] p.dropLast).2 = true then
      match write sys (if p = [] then t else (mkdirs sys t [] p.dropLast).1) p content with
      | some v => (v, true)
      | none => (if p = [] then t else (mkdirs sys t [] p.dropLast).1, false)
    else (if sys.takes p.dropLast then (mkdirs sys t [] p.dropLast).1 else t, false) := by
  rw [place]
  by_cases hp : p = []
  · simp only [hp, if_true, true_or]
  · by_cases ht : sys.takes p.dropLast
    · rcases hm : mkdirs sys t [] p.dropLast with ⟨u, _ | _⟩
      · simp [hp, ht]
      · simp [hp, ht]
    · simp [hp, ht]

/-- The directories above are there once they are made, and the file's own place is as it was. -/
theorem find_above (hp : p ≠ []) (hm : (mkdirs sys t [] p.dropLast).2 = true) :
    (mkdirs sys t [] p.dropLast).1.find q = if q <+: p ∧ q ≠ p then some .directory else t.find q := by
  split_ifs with hq
  · have := @find_mkdirs _ _ _ t _ sys (mkdirs sys t [] p.dropLast).1 [] p.dropLast (Prod.ext rfl hm) q
      ((prefix_dropLast hp).mpr hq)
    rwa [List.nil_append] at this
  · refine find_mkdirs_ne fun r hr he => hq ?_
    rw [List.nil_append] at he
    rw [he]
    exact (prefix_dropLast hp).mp hr

theorem place_iff : (place sys t p content).2 = true ↔ t.Reaches sys p := by
  rw [place_eq]
  by_cases hp : p = []
  · subst hp
    rw [if_pos (.inl rfl), if_pos rfl]
    have hw := @write_iff _ _ _ t [] _ sys content (.inl rfl)
    constructor
    · intro h
      refine ⟨fun h => absurd rfl h, fun q hq hne => absurd (List.prefix_nil.mp hq) hne, hw.mp ?_⟩
      cases hr : write sys t [] content with
      | none => rw [hr] at h; cases h
      | some v => rfl
    · intro h
      obtain ⟨v, hv⟩ := Option.isSome_iff_exists.mp (hw.mpr h.here)
      rw [hv]
  · rw [if_neg hp]
    have hown : (mkdirs sys t [] p.dropLast).2 = true →
        ((write sys (mkdirs sys t [] p.dropLast).1 p content).isSome ↔ t.Takes sys p) := by
      intro hm
      have hdrop : (mkdirs sys t [] p.dropLast).1.find p.dropLast = some .directory := by
        rw [find_above hp hm, if_pos ((prefix_dropLast hp).mp (List.prefix_refl _))]
      have hfind : (mkdirs sys t [] p.dropLast).1.find p = t.find p := by rw [find_above hp hm, if_neg (by simp)]
      rw [write_iff (.inr hdrop), Takes, Takes, fileAt_congr hfind, hfind]
    constructor
    · intro h
      split_ifs at h with hc
      obtain ⟨ht, hm⟩ := hc.resolve_left hp
      refine ⟨fun _ => ht, (mkdirs_above hp).mp hm, (hown hm).mp ?_⟩
      cases hr : write sys (mkdirs sys t [] p.dropLast).1 p content with
      | none => rw [hr] at h; cases h
      | some v => rfl
    · intro h
      have hm := (mkdirs_above hp).mpr h.above
      obtain ⟨v, hv⟩ := Option.isSome_iff_exists.mp ((hown hm).mpr h.here)
      rw [if_pos (.inr ⟨h.parent hp, hm⟩), hv]

/-- What is found once a file is placed. -/
theorem find_place (h : place sys t p content = (u, true)) : u.find q =
    if q = p then some (.file (content (t.fileAt p))) else if q <+: p then some .directory else t.find q := by
  have hok : (place sys t p content).2 = true := by rw [h]
  have hr := place_iff.mp hok
  rw [place_eq] at h
  by_cases hp : p = []
  · subst hp
    rw [if_pos (.inl rfl), if_pos rfl] at h
    cases hw : write sys t [] content with
    | none => rw [hw] at h; cases h
    | some v =>
      rw [hw] at h
      cases h
      rw [(find_write hw).2]
      refine ite_congr rfl (fun _ => rfl) fun hq => ?_
      rw [if_neg fun hpre => hq (List.prefix_nil.mp hpre)]
  · have hm := (mkdirs_above hp).mpr hr.above
    rw [if_pos (.inr ⟨hr.parent hp, hm⟩), if_neg hp] at h
    have hown : (mkdirs sys t [] p.dropLast).1.fileAt p = t.fileAt p :=
      fileAt_congr (by rw [find_above hp hm, if_neg (by simp)])
    cases hw : write sys (mkdirs sys t [] p.dropLast).1 p content with
    | none => rw [hw] at h; cases h
    | some v =>
      rw [hw] at h
      cases h
      rw [(find_write hw).2, hown, find_above hp hm]
      refine ite_congr rfl (fun _ => rfl) fun hq => ?_
      simp only [hq, ne_eq, not_false_eq_true, and_true]

/-- Nothing that is there is lost, but for the file at the path itself. -/
theorem find_place_some (h : t.find q = some e) (hq : q ≠ p) : (place sys t p content).1.find q = some e := by
  cases hok : (place sys t p content).2 with
  | true =>
    have hr := place_iff.mp hok
    rw [find_place (Prod.ext rfl hok), if_neg hq]
    split_ifs with hpre
    · rcases hr.above q hpre hq with hd | ⟨hd, -⟩
      · rw [← hd, h]
      · rw [hd] at h
        cases h
    · exact h
  | false =>
    rw [place_eq] at hok ⊢
    split_ifs at hok ⊢ with hc hp ht
    · cases hw : write sys t p content with
      | none => exact h
      | some v => rw [hw] at hok; cases hok
    · cases hw : write sys (mkdirs sys t [] p.dropLast).1 p content with
      | none => exact find_mkdirs_some h
      | some v => rw [hw] at hok; cases hok
    · exact find_mkdirs_some h
    · exact h

end Files

end Tree

end BettingHelper.Lib.FileTree
