/-
  BettingHelper.Lib.JsonDict — dictionaries as their members in the order of their names.

  Two Python dictionaries with the same members are equal, in whatever order they were
  made. Here a dictionary is its members in the order `dict` puts them in (`Ordered`).

  Proved: an ordered value of ASCII texts is written and read back (`Ascii.plain`), and
  what a member more does to a dictionary (`without_update`, `update_map`).
-/

import BettingHelper.Lib.JsonSize
import BettingHelper.Lib.JsonGrammar

namespace BettingHelper.Lib.Json

variable {F : Type}

mutual

/-- The members of every object are in the order of a dictionary. -/
def Ordered : Value F → Prop
  | .arr l => OrderedItems l
  | .obj l => dict l = l ∧ OrderedMembers l
  | _ => True

def OrderedItems : List (Value F) → Prop
  | [] => True
  | v :: l => Ordered v ∧ OrderedItems l

def OrderedMembers : List (Text × Value F) → Prop
  | [] => True
  | (_, v) :: l => Ordered v ∧ OrderedMembers l

end

mutual

/-- No number, and every text is ASCII. -/
def Ascii : Value F → Prop
  | .null => True
  | .bool _ => True
  | .int _ => False
  | .float _ => False
  | .str s => s.all (· < 0x80)
  | .arr l => AsciiItems l
  | .obj l => AsciiMembers l

def AsciiItems : List (Value F) → Prop
  | [] => True
  | v :: l => Ascii v ∧ AsciiItems l

def AsciiMembers : List (Text × Value F) → Prop
  | [] => True
  | (k, v) :: l => k.all (· < 0x80) ∧ Ascii v ∧ AsciiMembers l

end

theorem asciiItems_iff {l : List (Value F)} : AsciiItems l ↔ ∀ v ∈ l, Ascii v := by
  induction l with
  | nil => simp [AsciiItems]
  | cons v l ih => simp only [AsciiItems, ih, List.forall_mem_cons]

theorem asciiMembers_iff {l : List (Text × Value F)} : AsciiMembers l ↔ ∀ m ∈ l, m.1.all (· < 0x80) ∧ Ascii m.2 := by
  induction l with
  | nil => simp [AsciiMembers]
  | cons m l ih => simp only [AsciiMembers, ih, List.forall_mem_cons, and_assoc]

theorem orderedMembers_iff {l : List (Text × Value F)} : OrderedMembers l ↔ ∀ m ∈ l, Ordered m.2 := by
  induction l with
  | nil => simp [OrderedMembers]
  | cons m l ih => simp only [OrderedMembers, ih, List.forall_mem_cons]

/-! ## A dictionary -/

theorem dict_nodup (l : List (Text × Value F)) : ((dict l).map (·.1)).Nodup :=
  ((List.perm_insertionSort _ (lastOnly l)).map (·.1)).nodup_iff.mpr (lastOnly_nodup l)

theorem dict_perm {l : List (Text × Value F)} (hl : (l.map (·.1)).Nodup) : (dict l).Perm l := by
  rw [dict, lastOnly_eq hl]
  exact List.perm_insertionSort _ l

theorem dict_le (l : List (Text × Value F)) : (dict l).Pairwise fun a b => utf16 a.1 ≤ utf16 b.1 :=
  List.pairwise_insertionSort _ _

theorem dict_dict (l : List (Text × Value F)) : dict (dict l) = dict l := by
  rw [show dict (dict l) = _ from rfl, dict, lastOnly_eq (dict_nodup l)]
  exact (dict_le l).insertionSort_eq

theorem scalar_ascii {t : Text} (h : t.all (· < 0x80)) : t.all isScalar := by
  refine List.all_eq_true.mpr fun c hc => ?_
  have := of_decide_eq_true (List.all_eq_true.mp h c hc)
  simp [isScalar]
  omega

mutual

theorem Ordered.distinct : ∀ {v : Value F}, Ordered v → Distinct v
  | .null, _ => trivial
  | .bool _, _ => trivial
  | .int _, _ => trivial
  | .float _, _ => trivial
  | .str _, _ => trivial
  | .arr _, h => OrderedItems.distinct h
  | .obj l, h => ⟨h.1 ▸ dict_nodup l, OrderedMembers.distinct h.2⟩

theorem OrderedItems.distinct : ∀ {l : List (Value F)}, OrderedItems l → DistinctItems l
  | [], _ => trivial
  | _ :: _, h => ⟨h.1.distinct, h.2.distinct⟩

theorem OrderedMembers.distinct : ∀ {l : List (Text × Value F)}, OrderedMembers l → DistinctMembers l
  | [], _ => trivial
  | _ :: _, h => ⟨h.1.distinct, h.2.distinct⟩

end

mutual

theorem Ascii.free : ∀ {v : Value F}, Ascii v → Free v
  | .null, _ => trivial
  | .bool _, _ => trivial
  | .str _, h => scalar_ascii h
  | .arr _, h => AsciiItems.free h
  | .obj _, h => AsciiMembers.free h

theorem AsciiItems.free : ∀ {l : List (Value F)}, AsciiItems l → FreeItems l
  | [], _ => trivial
  | _ :: _, h => ⟨h.1.free, h.2.free⟩

theorem AsciiMembers.free : ∀ {l : List (Text × Value F)}, AsciiMembers l → FreeMembers l
  | [], _ => trivial
  | _ :: _, h => ⟨scalar_ascii h.1, h.2.1.free, h.2.2.free⟩

end

mutual

theorem Ascii.plain : ∀ {v : Value F}, Ascii v → Ordered v → Plain v
  | .null, _, _ => trivial
  | .bool _, _, _ => trivial
  | .str _, h, _ => scalar_ascii h
  | .arr _, h, ho => AsciiItems.plain h ho
  | .obj _, h, ho => by
    refine ⟨?_, AsciiMembers.plain h ho.2⟩
    rw [← ho.1]
    exact dict_sorted fun m hm => scalar_ascii (asciiMembers_iff.mp h m hm).1

theorem AsciiItems.plain : ∀ {l : List (Value F)}, AsciiItems l → OrderedItems l → PlainItems l
  | [], _, _ => trivial
  | _ :: _, h, ho => ⟨h.1.plain ho.1, h.2.plain ho.2⟩

theorem AsciiMembers.plain : ∀ {l : List (Text × Value F)}, AsciiMembers l → OrderedMembers l → PlainMembers l
  | [], _, _ => trivial
  | _ :: _, h, ho => ⟨scalar_ascii h.1, h.2.1.plain ho.1, h.2.2.plain ho.2⟩

end

/-! ## A member more, and a member less -/

/-- `{**l, k: v}` -/
def update (l : List (Text × Value F)) (k : Text) (v : Value F) : List (Text × Value F) := dict (l ++ [(k, v)])

/-- `{n: v for n, v in l.items() if n != k}` -/
def without (l : List (Text × Value F)) (k : Text) : List (Text × Value F) := l.filter (·.1 ≠ k)

theorem lookup_without {k n : Text} (h : n ≠ k) (l : List (Text × Value F)) : (without l k).lookup n = l.lookup n := by
  induction l with
  | nil => rfl
  | cons m l ih =>
    rw [without, List.filter_cons]
    split_ifs with hm
    · rw [List.lookup_cons, List.lookup_cons, ← without, ih]
    · have hk : m.1 = k := by simpa using hm
      have hne : (n == m.1) = false := by simpa [hk] using h
      rw [← without, ih, List.lookup_cons, hne]

variable {l : List (Text × Value F)} {k : Text}

theorem update_perm (hl : dict l = l) (hk : k ∉ l.map (·.1)) (v : Value F) : (update l k v).Perm (l ++ [(k, v)]) := by
  refine dict_perm ?_
  rw [List.map_append, List.nodup_append]
  refine ⟨hl ▸ dict_nodup l, by simp, fun a ha b hb => ?_⟩
  obtain rfl : b = k := by simpa using hb
  intro he
  exact hk (he ▸ ha)

/-- Another value of the new member changes that alone. -/
theorem update_map (hk : k ∉ l.map (·.1)) (a b : Value F) :
    update l k b = (update l k a).map fun m => if m.1 = k then (m.1, b) else m := by
  rw [update, update, ← dict_map fun m => by split_ifs <;> rfl]
  have hsame : ∀ m ∈ l, (if m.1 = k then (m.1, b) else m) = m := by
    intro m hm
    refine if_neg fun he => hk ?_
    exact List.mem_map.mpr ⟨m, hm, he⟩
  rw [List.map_append, List.map_congr_left hsame, List.map_id', List.map_singleton, if_pos rfl]

/-- Taking the new member away again. -/
theorem without_update (hl : dict l = l) (hs : ∀ m ∈ l, m.1.all isScalar) (hk : k ∉ l.map (·.1)) (v : Value F) :
    without (update l k v) k = l := by
  have hsame : (l ++ [(k, v)]).filter (·.1 ≠ k) = l := by
    rw [List.filter_append, List.filter_singleton, List.filter_eq_self.mpr fun m hm => ?_]
    · simp
    · exact decide_eq_true fun he => hk (List.mem_map.mpr ⟨m, hm, he⟩)
  have hp : (without (update l k v) k).Perm l := by
    have := (update_perm hl hk v).filter (·.1 ≠ k)
    rwa [hsame] at this
  have hle : ∀ a b, a ∈ without (update l k v) k → b ∈ l → utf16 a.1 ≤ utf16 b.1 → utf16 b.1 ≤ utf16 a.1 → a = b := by
    intro a b ha hb hab hba
    have ha := hp.mem_iff.mp ha
    have hname : a.1 = b.1 := utf16_inj (hs a ha) (hs b hb) (le_antisymm hab hba)
    exact List.inj_on_of_nodup_map (hl ▸ dict_nodup l) ha hb hname
  exact hp.eq_of_pairwise hle ((dict_le _).sublist List.filter_sublist) (hl ▸ dict_le l)

/-! ## Records -/

theorem record_members {l : List (String × Doc)} {m : Text × Doc} (hm : m ∈ dict (l.map fun m => (text m.1, m.2))) :
    ∃ a ∈ l, m = (text a.1, a.2) := by
  obtain ⟨a, ha, rfl⟩ := List.mem_map.mp (dict_mem hm)
  exact ⟨a, ha, rfl⟩

theorem ordered_record {l : List (String × Doc)} (h : ∀ a ∈ l, Ordered a.2) : Ordered (record l) := by
  refine ⟨dict_dict _, orderedMembers_iff.mpr fun m hm => ?_⟩
  obtain ⟨a, ha, rfl⟩ := record_members hm
  exact h a ha

theorem ascii_record {l : List (String × Doc)} (h : ∀ a ∈ l, (text a.1).all (· < 0x80) ∧ Ascii a.2) : Ascii (record l) := by
  refine asciiMembers_iff.mpr fun m hm => ?_
  obtain ⟨a, ha, rfl⟩ := record_members hm
  exact h a ha

end BettingHelper.Lib.Json
