/-
  BettingHelper.Vendor.Paths — names in a directory and the texts of relative paths.

  A path in a tree is a list of names; a path in a file is a text. `posix` writes the one as
  the other and `locate` reads it back (`locate_posix`). `_relative` lets no text pass that is
  not written so, so that two of its paths are one only when their texts are (`locate_inj`).
-/

import BettingHelper.Lib.JsonText
import BettingHelper.Lib.FileTree

namespace BettingHelper.Vendor

open BettingHelper.Lib.Json BettingHelper.Lib.FileTree

def slash : Nat := '/'.toNat

/-- What a directory can have as the name of an entry. -/
def Component (s : Text) : Prop := s ≠ [] ∧ slash ∉ s ∧ 0 ∉ s ∧ s ≠ text "." ∧ s ≠ text ".."

instance (s : Text) : Decidable (Component s) := inferInstanceAs (Decidable (_ ∧ _))

abbrev Name := {s : Text // Component s}

abbrev Path := List Name

/-- `as_posix()` of a relative path. -/
def posix (p : Path) : Text := if p = [] then text "." else [slash].intercalate (p.map (·.val))

/-! ## `PurePosixPath` -/

/-- `parts`, the root apart: empty ones and single dots are dropped. -/
def parts (value : Text) : List Text := (value.splitOn slash).filter fun s => s ≠ [] ∧ s ≠ text "."

def isAbsolute (value : Text) : Bool := value.head? = some slash

/-- `as_posix()` of what is not absolute. -/
def asPosix (value : Text) : Text := if parts value = [] then text "." else [slash].intercalate (parts value)

def name (s : Text) : Option Name := if h : Component s then some ⟨s, h⟩ else none

/-- The path that a text names below a directory; a name with a NUL in it names nothing. -/
def locate (value : Text) : Option Path := (parts value).mapM name

variable {p : Path} {value other : Text}

theorem name_val (n : Name) : name n.val = some n := dif_pos n.property

theorem name_some {s : Text} {n : Name} (h : name s = some n) : n.val = s := by
  rw [name] at h
  split_ifs at h
  cases h
  rfl

theorem mapM_names (p : Path) : (p.map (·.val)).mapM name = some p := by
  induction p with
  | nil => rfl
  | cons n p ih => rw [List.map_cons, List.mapM_cons, name_val, ih]; rfl

theorem mapM_vals {l : List Text} (h : l.mapM name = some p) : p.map (·.val) = l := by
  induction l generalizing p with
  | nil => cases h; rfl
  | cons s l ih =>
    rw [List.mapM_cons] at h
    simp only [Option.bind_eq_bind, Option.bind_eq_some_iff] at h
    obtain ⟨n, hn, q, hq, he⟩ := h
    cases he
    rw [List.map_cons, ih hq, name_some hn]

theorem parts_posix (p : Path) : parts (posix p) = p.map (·.val) := by
  rw [posix]
  split_ifs with hp
  · rw [hp]
    decide
  · have hslash : ∀ s ∈ p.map (·.val), slash ∉ s := by
      intro s hs
      obtain ⟨n, -, rfl⟩ := List.mem_map.mp hs
      exact n.property.2.1
    rw [parts, List.splitOn_intercalate slash hslash (fun he => hp (List.map_eq_nil_iff.mp he)), List.filter_eq_self]
    intro s hs
    obtain ⟨n, -, rfl⟩ := List.mem_map.mp hs
    exact decide_eq_true ⟨n.property.1, n.property.2.2.2.1⟩

theorem locate_posix (p : Path) : locate (posix p) = some p := by rw [locate, parts_posix, mapM_names]

theorem posix_inj {q : Path} (h : posix p = posix q) : p = q := by
  have := locate_posix p
  rw [h, locate_posix] at this
  exact (Option.some.inj this).symm

/-- A text that is written as its parts are is the text of the path it names. -/
theorem posix_locate (hv : asPosix value = value) (h : locate value = some p) : posix p = value := by
  have hparts := mapM_vals h
  rw [posix, ← hv, asPosix, ← hparts]
  simp only [List.map_eq_nil_iff]

theorem locate_inj (hv : asPosix value = value) (ho : asPosix other = other) (h : locate value = some p)
    (h' : locate other = some p) : value = other := by rw [← posix_locate hv h, posix_locate ho h']

/-! ## `_relative` -/

/-- `_relative`: the text, where it does not raise. -/
def relative (nfc : Text → Text) (pre : String) (value : Option Doc) : Option Text :=
  match value with
  | some (.str s) =>
    if '\\'.toNat ∈ s ∨ ¬text pre <+: s ∨ isAbsolute s ∨ asPosix s ≠ s ∨
      (parts s).any (fun part => part = [] ∨ part = text "." ∨ part = text ".." ∨ nfc part ≠ part) then none
    else some s
  | _ => none

theorem relative_some {nfc : Text → Text} {pre : String} {d : Option Doc} {s : Text} (h : relative nfc pre d = some s) :
    asPosix s = s ∧ ∀ part ∈ parts s, part ≠ text ".." ∧ nfc part = part := by
  unfold relative at h
  split at h
  · split_ifs at h with hs
    cases h
    simp only [not_or, not_not, List.any_eq_true, decide_eq_true_eq, not_exists, not_and] at hs
    refine ⟨hs.2.2.2.1, fun part hp => ?_⟩
    have := hs.2.2.2.2 part hp
    exact ⟨this.2.2.1, this.2.2.2⟩
  · cases h

end BettingHelper.Vendor
