/-
  BettingHelper.Trees.Binding — equal roots are roots of equal contents, and in what order
  a tree is listed does not matter.

  Both framings cancel, so the list that was hashed is read back off the preimage, as long
  as SHA-256 does not collide on what the two computations hash.
-/

import BettingHelper.Trees.Roots
import BettingHelper.Seal.Reverify

namespace BettingHelper.Trees

open BettingHelper.Lib.Json BettingHelper.Lib.Framing BettingHelper.Seal

variable {κ : Type} {t : Tools κ}

/-! ## The files of a walk -/

def asFile : Text × Node → Option (Text × Bytes)
  | (r, .file b _) => some (r, b)
  | _ => none

/-- What `visit` asks of one entry. -/
def visited (good : Text → Bool) : Text × Node → Bool
  | (r, .directory) => good r
  | (r, .file _ links) => good r && links = 1
  | _ => false

/-- What `os.walk` and the checks of the governed root ask of one. -/
def walked (bad : Text → Bool) : Text × Node → Bool
  | (r, .file _ links) => links = 1 && !bad r
  | (_, .other) => false
  | _ => true

theorem visit_eq (good : Text → Bool) (l : List (Text × Node)) :
    visit good l = if l.all (visited good) then some (l.filterMap asFile) else none := by
  induction l with
  | nil => rfl
  | cons e l ih =>
    obtain ⟨r, n⟩ := e
    cases n with
    | directory =>
      rw [visit, ih, List.all_cons, visited, List.filterMap_cons_none rfl]
      cases good r <;> rfl
    | file b links =>
      rw [visit, ih, List.all_cons, visited, List.filterMap_cons, asFile]
      cases good r && decide (links = 1)
      · rfl
      · cases l.all (visited good) <;> rfl
    | linkedDirectory => rfl
    | other => rfl

theorem filesOf_eq (bad : Text → Bool) (l : List (Text × Node)) :
    filesOf bad l = if l.all (walked bad) then some (l.filterMap asFile) else none := by
  induction l with
  | nil => rfl
  | cons e l ih =>
    obtain ⟨r, n⟩ := e
    cases n with
    | file b links =>
      rw [filesOf, ih, List.all_cons, walked, List.filterMap_cons, asFile]
      by_cases hl : links = 1
      · cases bad r
        · cases l.all (walked bad) <;> simp [hl]
        · simp
      · simp [hl]
    | directory => exact ih.trans (by rw [List.all_cons, List.filterMap_cons_none rfl]; rfl)
    | linkedDirectory => exact ih.trans (by rw [List.all_cons, List.filterMap_cons_none rfl]; rfl)
    | other => rfl

/-! ## The files covered -/

/-- The tree, but for some paths: the bytes of each file. -/
def covered (excluded : List Text) (p : Pack) (r : Text) : Option Bytes :=
  if r ∈ excluded then none
  else match p.entries.lookup r with
    | some (.file b _) => some b
    | _ => none

/-- The files of that tree, sorted. -/
def listed (excluded : List Text) (p : Pack) : List (Text × Bytes) :=
  sortFiles ((p.entries.filterMap asFile).filter (·.1 ∉ excluded))

/-- The same tree, listed by the file system in another order. -/
structure Reordered (p q : Pack) : Prop where
  entries : p.entries.Perm q.entries
  name : p.name = q.name
  isDirectory : p.isDirectory = q.isDirectory

variable {excluded : List Text} {p q : Pack}

theorem mem_asFile {r : Text} {b : Bytes} : (r, b) ∈ p.entries.filterMap asFile ↔ ∃ n, (r, .file b n) ∈ p.entries := by
  rw [List.mem_filterMap]
  constructor
  · rintro ⟨⟨d, n⟩, he, h⟩
    cases n with
    | file c links =>
      cases h
      exact ⟨links, he⟩
    | _ => cases h
  · rintro ⟨n, hn⟩
    exact ⟨_, hn, rfl⟩

theorem mem_listed {r : Text} {b : Bytes} : (r, b) ∈ listed excluded p ↔ covered excluded p r = some b := by
  rw [listed, (sortFiles_perm _).mem_iff, List.mem_filter, mem_asFile, covered]
  simp only [Pack.mem_entries, decide_eq_true_eq]
  by_cases hr : r ∈ excluded
  · simp [hr]
  · simp only [hr, not_false_eq_true, and_true, if_false]
    cases p.entries.lookup r with
    | none => simp
    | some n => cases n <;> simp [eq_comm]

theorem asFile_keys (l : List (Text × Node)) : ((l.filterMap asFile).map (·.1)).Sublist (l.map (·.1)) := by
  induction l with
  | nil => exact List.Sublist.refl _
  | cons e l ih =>
    obtain ⟨r, n⟩ := e
    cases n with
    | file b links => exact ih.cons_cons r
    | _ => exact ih.cons r

theorem listed_nodup : ((listed excluded p).map (·.1)).Nodup := by
  rw [listed, ((sortFiles_perm _).map (·.1)).nodup_iff]
  exact ((List.filter_sublist.map _).trans (asFile_keys p.entries)).nodup p.distinct

theorem sortFiles_sorted (l : List (Text × Bytes)) : (sortFiles l).Pairwise fun a b => encode a.1 ≤ encode b.1 := by
  have : Std.Total fun a b : Text × Bytes => encode a.1 ≤ encode b.1 := ⟨fun _ _ => List.le_total _ _⟩
  have : IsTrans (Text × Bytes) fun a b => encode a.1 ≤ encode b.1 := ⟨fun _ _ _ h₁ h₂ => List.le_trans h₁ h₂⟩
  exact List.pairwise_insertionSort _ _

theorem encode_inj {r s : Text} (hr : r.all isScalar) (hs : s.all isScalar) (h : encode r = encode s) : r = s :=
  Option.some.inj (by rw [← decode_encode hr, h, decode_encode hs])

/-- Two sorted lists that have the same members, under paths of their own, are one. -/
theorem eq_of_sorted {β : Type} {l m : List (Text × β)} (hl : (l.map (·.1)).Nodup) (hm : (m.map (·.1)).Nodup)
    (hs : ∀ e ∈ l, e.1.all isScalar) (hlm : ∀ e, e ∈ l ↔ e ∈ m) (sl : l.Pairwise fun a b => encode a.1 ≤ encode b.1)
    (sm : m.Pairwise fun a b => encode a.1 ≤ encode b.1) : l = m := by
  have hperm := (List.perm_ext_iff_of_nodup hl.of_map hm.of_map).mpr hlm
  refine hperm.eq_of_pairwise (fun a b ha hb h₁ h₂ => ?_) sl sm
  have hb := (hlm b).mpr hb
  exact List.inj_on_of_nodup_map hl ha hb (encode_inj (hs a ha) (hs b hb) (List.le_antisymm h₁ h₂))

theorem listed_inj (hp : (listed excluded p).all (·.1.all isScalar)) :
    listed excluded p = listed excluded q ↔ covered excluded p = covered excluded q := by
  constructor
  · intro h
    funext r
    ext b
    rw [← mem_listed, ← mem_listed, h]
  · intro h
    refine eq_of_sorted listed_nodup listed_nodup (List.all_eq_true.mp hp) ?_ (sortFiles_sorted _) (sortFiles_sorted _)
    rintro ⟨r, b⟩
    rw [mem_listed, mem_listed, h]

/-! ## Digests -/

theorem toNat_lt {base k : Nat} (hb : base ^ k = 2 ^ 256) (x : BitVec 256) : x.toNat ∈ {n | n < base ^ k} :=
  x.isLt.trans_le hb.ge

theorem hex_inj {x y : BitVec 256} (h : text (hex x) = text (hex y)) : x = y := by
  have hd : Set.InjOn (fun d => (Nat.digitChar d).toNat) {d | d < 16} := by
    intro a ha b hb
    have : ∀ a < 16, ∀ b < 16, (Nat.digitChar a).toNat = (Nat.digitChar b).toNat → a = b := by decide
    exact this a ha b hb
  have hx : ∀ z : BitVec 256, text (hex z) = (digits 16 64 z.toNat).map fun d => (Nat.digitChar d).toNat := by
    intro z
    rw [hex, text_ofList, List.map_map, digits, List.map_map]
    rfl
  rw [hx, hx] at h
  exact BitVec.eq_of_toNat_eq (digits_map_injOn (by decide) hd (toNat_lt rfl x) (toNat_lt rfl y) h)

theorem hexdigest_inj {a b : Bytes} (h : hexdigest t a = hexdigest t b) : t.sha256 a = t.sha256 b := hex_inj h

theorem hex_ascii (x : BitVec 256) : ∀ c ∈ text (hex x), c < 128 := by
  intro c hc
  rw [hex, text_ofList, List.mem_map] at hc
  obtain ⟨d, hd, rfl⟩ := hc
  obtain ⟨i, -, rfl⟩ := List.mem_map.mp hd
  have : ∀ a < 16, (Nat.digitChar a).toNat < 128 := by decide
  exact this _ (Nat.mod_lt _ (by decide))

theorem ofNat_injOn : Set.InjOn UInt8.ofNat {d | d < 256} := by
  intro a ha b hb h
  have := congrArg UInt8.toNat h
  rwa [UInt8.toNat_ofNat_of_lt' ha, UInt8.toNat_ofNat_of_lt' hb] at this

theorem digestBytes_inj {x y : BitVec 256} (h : digestBytes x = digestBytes y) : x = y := by
  have hx : ∀ z : BitVec 256, digestBytes z = (digits 256 32 z.toNat).map UInt8.ofNat := by
    intro z
    rw [digestBytes, digits, List.map_map]
    rfl
  rw [hx, hx] at h
  exact BitVec.eq_of_toNat_eq (digits_map_injOn (by decide) ofNat_injOn (toNat_lt rfl x) (toNat_lt rfl y) h)

/-! ## Framings -/

theorem cancels_text : Cancels (fun r : Text => r.all isScalar ∧ 0 ∉ r) fun r => encode r ++ [0] := by
  intro r s hr hs x y h
  have h0 : ∀ u : Text, encode u ++ [0] = encode (u ++ [0]) := fun u => (encode_append u [0]).symm
  simp only [h0] at h
  exact Hashing.encode_split hr.1 hs.1 hr.2 hs.2 h

theorem cancels_size : Cancels (fun _ : Nat => True) fun n => encode (decimal n) ++ [0] := by
  refine cancels_text.comap (k := fun n : Nat => decimal n) ?_ ?_
  · intro m _ n _ h
    exact (Wire.integer_decimal m).symm.trans ((congrArg Wire.integer h).trans (Wire.integer_decimal n))
  · intro n _
    refine ⟨decimal_scalar _, fun h0 => ?_⟩
    rw [Wire.decimal_nat, List.mem_map] at h0
    obtain ⟨c, hc, h0⟩ := h0
    have := Nat.isDigit_of_mem_toDigits (by decide) (by decide) hc
    rw [Char.toNat_inj (d := '\x00') |>.mp h0] at this
    exact absurd this (by decide)

theorem cancels_digest : Cancels (fun _ : BitVec 256 => True) fun x => encode (text (hex x)) ++ [0x0a] := by
  refine cancels_fixed (n := 65) ?_ ?_
  · intro x _
    rw [encode_ascii (hex_ascii x), hex, text_ofList]
    simp
  · intro x _ y _ h
    have := List.append_cancel_right h
    rw [encode_ascii (hex_ascii x), encode_ascii (hex_ascii y)] at this
    exact hex_inj (map_injOn (P := (· < 128)) (ofNat_injOn.mono fun d hd => Nat.lt_trans hd (by decide)) (hex_ascii x) (hex_ascii y) this)

theorem cancels_line : Cancels (fun m : Text × Nat × BitVec 256 => (m.1.all isScalar ∧ 0 ∉ m.1) ∧ True ∧ True) fun m =>
    treeLine (m.1, m.2.1, text (hex m.2.2)) := by
  have := cancels_text.pair (cancels_size.pair cancels_digest)
  simpa [treeLine] using this

theorem length4_digits (n : Nat) : length4 n = (digits 256 4 n).map UInt8.ofNat := by
  rw [length4, digits, List.map_map]
  rfl

theorem cancels_framed : Cancels (fun m : Text × BitVec 256 => (m.1.all isScalar ∧ (encode m.1).length < 2 ^ 32) ∧ True) fun m =>
    length4 (encode m.1).length ++ encode m.1 ++ digestBytes m.2 := by
  have hlen : Cancels (· < 2 ^ 32) length4 := by
    refine cancels_fixed (n := 4) (fun n _ => by simp [length4]) ?_
    intro m hm n hn h
    rw [length4_digits, length4_digits] at h
    exact digits_map_injOn (k := 4) (by decide) ofNat_injOn hm hn h
  have hpath : Cancels (fun r : Text => r.all isScalar ∧ (encode r).length < 2 ^ 32) fun r => length4 (encode r).length ++ encode r :=
    cancels_prefixed hlen (fun r hr => hr.2) fun r hr s hs h => encode_inj hr.1 hs.1 h
  have hdigest : Cancels (fun _ : BitVec 256 => True) digestBytes :=
    cancels_fixed (n := 32) (fun x _ => by simp [digestBytes]) fun x _ y _ h => digestBytes_inj h
  exact hpath.pair hdigest

section Collision

variable {S : Set Bytes}

/-- Without a collision the content is read back from the line of a file. -/
theorem cancels_file (hS : Set.InjOn t.sha256 S) :
    Cancels (fun m : Text × Bytes => (m.1.all isScalar ∧ 0 ∉ m.1) ∧ m.2 ∈ S) fun m => treeLine (sized t m) := by
  refine cancels_line.comap (k := fun m : Text × Bytes => (m.1, m.2.length, t.sha256 m.2)) ?_ fun m hm => ⟨hm.1, trivial, trivial⟩
  rintro ⟨r, b⟩ hb ⟨s, c⟩ hc h
  obtain ⟨rfl, h⟩ := Prod.mk.inj h
  exact Prod.ext rfl (hS hb.2 hc.2 (Prod.mk.inj h).2)

theorem cancels_leaf (hS : Set.InjOn t.sha256 S) :
    Cancels (fun m : Text × Bytes => (m.1.all isScalar ∧ (encode m.1).length < 2 ^ 32) ∧ m.2 ∈ S ∧ leafOf t m ∈ S)
      (framed t) := by
  refine cancels_framed.comap (k := fun m : Text × Bytes => (m.1, t.sha256 (leafOf t m))) ?_ fun m hm => ⟨hm.1, trivial⟩
  rintro ⟨r, b⟩ hb ⟨s, c⟩ hc h
  obtain ⟨rfl, h⟩ := Prod.mk.inj h
  have hleaf := List.append_cancel_left (hS hb.2.2 hc.2.2 h)
  exact Prod.ext rfl (hS hb.2.1 hc.2.1 (digestBytes_inj hleaf))

end Collision

/-! ## Reordering -/

theorem Reordered.symm (h : Reordered p q) : Reordered q p := ⟨h.entries.symm, h.name.symm, h.isDirectory.symm⟩

theorem Reordered.lookup (h : Reordered p q) (r : Text) : p.entries.lookup r = q.entries.lookup r := by
  ext n
  rw [← Pack.mem_entries, ← Pack.mem_entries, h.entries.mem_iff]

theorem Reordered.covered (h : Reordered p q) : covered excluded p = covered excluded q := by
  funext r
  rw [Trees.covered, Trees.covered, h.lookup]

/-- What can be written stays so. -/
theorem Reordered.write (h : Reordered p q) {r : Text} {b : Bytes} {p' : Pack} (hw : p.write r b = some p') :
    ∃ q', q.write r b = some q' := by
  obtain ⟨l, hl, -⟩ := Pack.write_eq hw
  obtain ⟨m, hm⟩ : ∃ m, put q.entries r b = some m := by
    rw [put] at hl ⊢
    by_cases hr : r = []
    · rw [if_pos hr] at hl
      cases hl
    · rw [if_neg hr] at hl ⊢
      simp only [h.lookup] at hl
      cases hk : q.entries.lookup r with
      | none =>
        simp only [hk] at hl ⊢
        split_ifs at hl ⊢
        exact ⟨_, rfl⟩
      | some n =>
        rw [hk] at hl
        cases n with
        | file c links => exact ⟨_, rfl⟩
        | _ => cases hl
  unfold Pack.write
  split
  · next hnone =>
    rw [hm] at hnone
    cases hnone
  · exact ⟨_, rfl⟩

/-! ## The roots and what they hash -/

def governedRoot (t : Tools κ) (registry : Bytes) (p : Pack) : Option Text :=
  (computeGovernedContentRoot t registry p).map (·.2)

def packHash (t : Tools κ) (p : Pack) : Option Text := (verifyPack t p).map (·.1)

def treeOf (t : Tools κ) (files : List (Text × Bytes)) : Bytes := files.flatMap fun m => treeLine (sized t m)

def governedHashed (t : Tools κ) (p : Pack) : List Bytes :=
  (listed exclusions p).map (·.2) ++ (listed exclusions p).map (leafOf t) ++ [rootOf t (listed exclusions p)]

def treeHashed (t : Tools κ) (excluded : List Text) (p : Pack) : List Bytes :=
  (listed excluded p).map (·.2) ++ [treeOf t (listed excluded p)]

/-- Two roots are equal when the maps covered are, if SHA-256 does not collide on what is hashed. -/
def Binds (t : Tools κ) (excluded : List Text) (hashed : Pack → List Bytes) (root root' : Pack → Option Text) : Prop :=
  ∀ p q x y, root p = some x → root' q = some y → Set.InjOn t.sha256 {b | b ∈ hashed p ∨ b ∈ hashed q} →
    (x = y ↔ covered excluded p = covered excluded q)

def Unordered (root : Pack → Option Text) : Prop := ∀ p q, Reordered p q → root p = root q

theorem Unordered.of_some {root : Pack → Option Text} (h : ∀ p q x, Reordered p q → root p = some x → root q = some x) :
    Unordered root := by
  intro p q hpq
  ext x
  exact ⟨h p q x hpq, h q p x hpq.symm⟩

theorem filter_scalar (excluded : List Text) : ((p.entries.filterMap asFile).filter (·.1 ∉ excluded)).all (·.1.all isScalar) =
    (listed excluded p).all (·.1.all isScalar) := by
  rw [listed, (sortFiles_perm _).all_eq]

theorem governedFiles_iff {files : List (Text × Bytes)} : governedFiles t p = some files ↔
    p.isDirectory ∧ p.entries.all (walked (ungoverned t)) ∧ (listed exclusions p).all (·.1.all isScalar) ∧
    files = listed exclusions p := by
  simp only [governedFiles, filesOf_eq, Option.bind_eq_bind, Option.bind_eq_some_iff, Option.guard_eq_some', exists_const]
  constructor
  · rintro ⟨hd, fs, hfs, hs, hf⟩
    split_ifs at hfs with hw
    obtain rfl := Option.some.inj hfs
    rw [filter_scalar] at hs
    exact ⟨hd, hw, hs, (Option.some.inj hf).symm⟩
  · rintro ⟨hd, hw, hs, rfl⟩
    exact ⟨hd, _, if_pos hw, by rw [filter_scalar]; exact hs, rfl⟩

/-- The record `compute_governed_content_root` writes. -/
def rootRecord (root : Text) (count : Nat) : Doc :=
  record [("schema_version", str "governed-content-root/v1"), ("algorithm", str "HD636-GOVERNED-ROOT-SHA256-v1"),
    ("root_sha256", .str root), ("file_count", .int count), ("exclusion_registry", .str exclusionRegistry)]

theorem governedRoot_iff {registry : Bytes} {x : Text} : governedRoot t registry p = some x ↔
    acceptsRegistry registry ∧ governedFiles t p = some (listed exclusions p) ∧
    ((listed exclusions p).all fun m => (encode m.1).length < 2 ^ 32) ∧ x = hexdigest t (rootOf t (listed exclusions p)) ∧
    ∃ q, p.write governedRootFile (line (rootRecord x (listed exclusions p).length)) = some q := by
  simp only [governedRoot, computeGovernedContentRoot, Option.map_eq_some_iff, Option.bind_eq_bind, Option.bind_eq_some_iff,
    Option.guard_eq_some', exists_const]
  constructor
  · rintro ⟨⟨q, y⟩, ⟨hr, files, hf, hl, w, hw, hq⟩, rfl⟩
    obtain ⟨-, -, -, rfl⟩ := governedFiles_iff.mp hf
    cases hq
    exact ⟨hr, hf, hl, rfl, _, hw⟩
  · rintro ⟨hr, hf, hl, rfl, w, hw⟩
    exact ⟨_, ⟨hr, _, hf, hl, w, hw, rfl⟩, rfl⟩

/-- What is sealed is this root, with the registry read out of the pack. -/
theorem sealed_root {record : Doc} (h : Seal.computeGovernedContentRoot t p = some (q, record)) : ∃ registry root count,
    p.read exclusionRegistry = some registry ∧ computeGovernedContentRoot t registry p = some (q, root) ∧
    record = rootRecord root count := by
  simp only [Seal.computeGovernedContentRoot, governedRecord, Option.bind_eq_bind, Option.bind_eq_some_iff,
    Option.guard_eq_some', exists_const] at h
  obtain ⟨_, ⟨hr, files, hf, hl, hrecord⟩, w, hw, hq⟩ := h
  cases hrecord
  cases hq
  rw [registryOk] at hr
  cases hb : p.read exclusionRegistry with
  | none =>
    rw [hb] at hr
    cases hr
  | some b =>
    refine ⟨b, hexdigest t (rootOf t files), files.length, rfl, ?_, rfl⟩
    have hacc : acceptsRegistry b := by
      rw [hb] at hr
      exact hr
    simp only [computeGovernedContentRoot, hf, Option.bind_eq_bind, Option.bind_eq_some_iff, Option.guard_eq_some', exists_const]
    exact ⟨hacc, files, rfl, hl, _, hw, rfl⟩

theorem vendorRoot_iff {x : Text} : computeVendorTreeRoot t p = some x ↔
    p.isDirectory ∧ p.entries.all (visited (validRepoPath t)) ∧ (listed [schemaManifest] p).all (·.1.all isScalar) ∧
    x = hexdigest t (treeOf t (listed [schemaManifest] p)) := by
  have hfilter : (p.entries.filterMap asFile).filter (·.1 ≠ schemaManifest) =
      (p.entries.filterMap asFile).filter (·.1 ∉ [schemaManifest]) := by
    simp
  simp only [computeVendorTreeRoot, visit_eq, Option.bind_eq_bind, Option.bind_eq_some_iff, Option.guard_eq_some', exists_const]
  constructor
  · rintro ⟨hd, fs, hfs, hs, hf⟩
    split_ifs at hfs with hw
    obtain rfl := Option.some.inj hfs
    rw [hfilter, filter_scalar] at hs
    rw [hfilter] at hf
    exact ⟨hd, hw, hs, (Option.some.inj hf).symm⟩
  · rintro ⟨hd, hw, hs, rfl⟩
    refine ⟨hd, _, if_pos hw, ?_, ?_⟩
    · rw [hfilter, filter_scalar]
      exact hs
    · rw [hfilter]
      rfl

/-! ## The manifest accepted -/

theorem declaredFile_ok {d : Doc} {m : Text × Nat × Text} (h : declaredFile t d = some m) :
    safeRelativePath t m.1 ∧ m.1 ≠ manifestFile := by
  unfold declaredFile at h
  split at h
  · split_ifs at h
    split at h
    · split_ifs at h with hc
      cases h
      exact hc.2.2
    · cases h
  · cases h

theorem portable_char {c : Nat} (h : portableChar c = true) : isScalar c ∧ c ≠ 0 ∧ c < 0x80 := by
  simp only [portableChar, isDigit, Bool.or_eq_true, Bool.and_eq_true, decide_eq_true_eq] at h
  have hA : 'A'.toNat = 65 := rfl
  have hZ : 'Z'.toNat = 90 := rfl
  have ha : 'a'.toNat = 97 := rfl
  have hz : 'z'.toNat = 122 := rfl
  have hdot : '.'.toNat = 46 := rfl
  have hline : '_'.toNat = 95 := rfl
  have hslash : '/'.toNat = 47 := rfl
  have hdash : '-'.toNat = 45 := rfl
  simp only [isScalar, Bool.or_eq_true, Bool.and_eq_true, decide_eq_true_eq]
  omega

theorem safePath_text {r : Text} (h : safeRelativePath t r) : r.all isScalar ∧ 0 ∉ r := by
  simp only [safeRelativePath, Bool.and_eq_true, List.all_eq_true] at h
  exact ⟨List.all_eq_true.mpr fun c hc => (portable_char (h.1.2 c hc)).1, fun h0 => (portable_char (h.1.2 0 h0)).2.1 rfl⟩

theorem governed_mem {files : List (Text × Bytes)} {m : Text × Bytes} :
    m ∈ sortFiles (files.filter (·.1 ≠ manifestFile)) ↔ m ∈ files ∧ m.1 ≠ manifestFile := by
  rw [(sortFiles_perm _).mem_iff, List.mem_filter, decide_eq_true_eq]

/-- What is declared is what is there, in the order of the paths. -/
theorem verifyFiles_ok {files : List (Text × Bytes)} {x : Text} (hn : (files.map (·.1)).Nodup) (h : verifyFiles t files = some x) :
    x = hexdigest t (treeOf t (sortFiles (files.filter (·.1 ≠ manifestFile)))) := by
  simp only [verifyFiles, Option.bind_eq_bind, Option.bind_eq_some_iff, Option.guard_eq_some', exists_const] at h
  obtain ⟨raw, -, manifest, -, ⟨hash, items⟩, -, declared, hd, hk, -, hs, hset, hall, hhash, hx⟩ := h
  -- each file declared is there, with the size and the digest declared
  have hfound : ∀ d ∈ declared, ∃ b, (d.1, b) ∈ files ∧ d.1 ≠ manifestFile ∧ d.1.all isScalar ∧ d = sized t (d.1, b) := by
    intro d hm
    obtain ⟨item, -, hitem⟩ := Lib.mapM_mem hd d hm
    obtain ⟨hsafe, hne⟩ := declaredFile_ok hitem
    obtain ⟨b, hb, hsize⟩ := (Option.any_eq_true _ _).mp (List.all_eq_true.mp hall d hm)
    exact ⟨b, (mem_iff_lookup hn).mpr hb, hne, (safePath_text hsafe).1, Prod.ext rfl (of_decide_eq_true hsize).symm⟩
  have hmem : ∀ e, e ∈ declared ↔ e ∈ (sortFiles (files.filter (·.1 ≠ manifestFile))).map (sized t) := by
    intro e
    constructor
    · intro he
      obtain ⟨b, hb, hne, -, hsize⟩ := hfound e he
      exact List.mem_map.mpr ⟨(e.1, b), governed_mem.mpr ⟨hb, hne⟩, hsize.symm⟩
    · intro he
      obtain ⟨m, hm, rfl⟩ := List.mem_map.mp he
      obtain ⟨hm, hne⟩ := governed_mem.mp hm
      have hkey := List.all_eq_true.mp hset m hm
      simp only [hne, decide_false, Bool.false_or, decide_eq_true_eq] at hkey
      obtain ⟨d, hd, hdm⟩ := List.mem_map.mp hkey
      obtain ⟨b, hb, -, -, hsize⟩ := hfound d hd
      have : (d.1, b) = m := List.inj_on_of_nodup_map hn hb hm hdm
      rw [← this, ← hsize]
      exact hd
  have hkeys : ((sortFiles (files.filter (·.1 ≠ manifestFile))).map (sized t)).map (·.1) =
      (sortFiles (files.filter (·.1 ≠ manifestFile))).map (·.1) := by
    rw [List.map_map]
    rfl
  have hdeclared : declared = (sortFiles (files.filter (·.1 ≠ manifestFile))).map (sized t) := by
    refine eq_of_sorted hk ?_ (fun d hd => (hfound d hd).choose_spec.2.2.1) hmem ?_ ?_
    · rw [hkeys, ((sortFiles_perm _).map (·.1)).nodup_iff]
      exact (List.filter_sublist.map _).nodup hn
    · rwa [List.pairwise_map] at hs
    · exact List.pairwise_map.mpr (sortFiles_sorted _)
  rw [← Option.some.inj hx, ← hhash, hdeclared, treeOf, List.flatMap_map]

theorem verifyFiles_perm {files gs : List (Text × Bytes)} (hn : (files.map (·.1)).Nodup) (h : files.Perm gs) :
    verifyFiles t files = verifyFiles t gs := by
  have hlookup : ∀ r, files.lookup r = gs.lookup r := by
    intro r
    ext b
    rw [← mem_iff_lookup hn, ← mem_iff_lookup ((h.map (·.1)).nodup_iff.mp hn), h.mem_iff]
  simp only [verifyFiles, hlookup, h.all_eq]

theorem packHash_iff {x : Text} : packHash t p = some x ↔ p.name = packDirectoryName ∧ p.isDirectory ∧
    p.entries.all (visited (safeRelativePath t)) ∧ verifyFiles t (p.entries.filterMap asFile) = some x := by
  simp only [packHash, verifyPack, sourceFiles, visit_eq, Option.map_eq_some_iff, Option.bind_eq_bind, Option.bind_eq_some_iff,
    Option.guard_eq_some', exists_const, Bool.and_eq_true, decide_eq_true_eq]
  constructor
  · rintro ⟨⟨y, files⟩, ⟨fs, ⟨⟨hn, hd⟩, hfs⟩, hash, hv, hy⟩, rfl⟩
    split_ifs at hfs with hw
    cases hfs
    cases hy
    exact ⟨hn, hd, hw, hv⟩
  · rintro ⟨hn, hd, hw, hv⟩
    exact ⟨_, ⟨_, ⟨⟨hn, hd⟩, if_pos hw⟩, _, hv, rfl⟩, rfl⟩

theorem asFile_nodup : ((p.entries.filterMap asFile).map (·.1)).Nodup := (asFile_keys p.entries).nodup p.distinct

/-- The hash of a manifest accepted is that of the tree. -/
theorem packHash_ok {x : Text} (h : packHash t p = some x) : x = hexdigest t (treeOf t (listed [manifestFile] p)) := by
  obtain ⟨-, -, -, hv⟩ := packHash_iff.mp h
  rw [verifyFiles_ok asFile_nodup hv, listed]
  simp

/-! ## The roots bind the contents -/

theorem good_path {good : Text → Bool} (hgood : ∀ r, good r = true → 0 ∉ r) (h : p.entries.all (visited good)) {m : Text × Bytes}
    (hm : m ∈ listed excluded p) : good m.1 ∧ 0 ∉ m.1 := by
  rw [listed, (sortFiles_perm _).mem_iff, List.mem_filter, mem_asFile] at hm
  obtain ⟨⟨n, hn⟩, -⟩ := hm
  have := List.all_eq_true.mp h _ hn
  rw [visited, Bool.and_eq_true] at this
  exact ⟨this.1, hgood _ this.1⟩

theorem listed_perm (h : Reordered p q) : (listed excluded p).Perm (listed excluded q) :=
  ((sortFiles_perm _).trans ((h.entries.filterMap _).filter _)).trans (sortFiles_perm _).symm

theorem listed_reordered (h : Reordered p q) (hp : (listed excluded p).all (·.1.all isScalar)) : listed excluded p = listed excluded q :=
  (listed_inj hp).mpr h.covered

theorem tree_binds {x y : Text} (hp : ∀ m ∈ listed excluded p, m.1.all isScalar ∧ 0 ∉ m.1)
    (hq : ∀ m ∈ listed excluded q, m.1.all isScalar ∧ 0 ∉ m.1) (hx : x = hexdigest t (treeOf t (listed excluded p)))
    (hy : y = hexdigest t (treeOf t (listed excluded q)))
    (hS : Set.InjOn t.sha256 {b | b ∈ treeHashed t excluded p ∨ b ∈ treeHashed t excluded q}) :
    x = y ↔ covered excluded p = covered excluded q := by
  rw [← listed_inj (List.all_eq_true.mpr fun m hm => (hp m hm).1), hx, hy]
  constructor
  · intro h
    have htree := hS (.inl (by simp [treeHashed])) (.inr (by simp [treeHashed])) (hexdigest_inj h)
    refine (cancels_file hS).flatMap_inj (fun m _ => by simp [treeLine]) (fun m hm => ⟨hp m hm, .inl ?_⟩)
      (fun m hm => ⟨hq m hm, .inr ?_⟩) htree
    all_goals exact List.mem_append_left _ (List.mem_map_of_mem hm)
  · intro h
    rw [h]

theorem governed_binds {x y : Text} (hp : ∀ m ∈ listed exclusions p, m.1.all isScalar ∧ (encode m.1).length < 2 ^ 32)
    (hq : ∀ m ∈ listed exclusions q, m.1.all isScalar ∧ (encode m.1).length < 2 ^ 32)
    (hx : x = hexdigest t (rootOf t (listed exclusions p))) (hy : y = hexdigest t (rootOf t (listed exclusions q)))
    (hS : Set.InjOn t.sha256 {b | b ∈ governedHashed t p ∨ b ∈ governedHashed t q}) :
    x = y ↔ covered exclusions p = covered exclusions q := by
  rw [← listed_inj (List.all_eq_true.mpr fun m hm => (hp m hm).1), hx, hy]
  have hin : ∀ o : Pack, ∀ m ∈ listed exclusions o, m.2 ∈ governedHashed t o ∧ leafOf t m ∈ governedHashed t o := fun o m hm =>
    ⟨List.mem_append_left _ (List.mem_append_left _ (List.mem_map_of_mem hm)),
      List.mem_append_left _ (List.mem_append_right _ (List.mem_map_of_mem hm))⟩
  constructor
  · intro h
    have hroot := hS (.inl (by simp [governedHashed])) (.inr (by simp [governedHashed])) (hexdigest_inj h)
    refine (cancels_leaf hS).flatMap_inj (fun m _ => ?_) (fun m hm => ⟨hp m hm, .inl (hin p m hm).1, .inl (hin p m hm).2⟩)
      (fun m hm => ⟨hq m hm, .inr (hin q m hm).1, .inr (hin q m hm).2⟩) (List.append_cancel_left hroot)
    intro hnil
    have := congrArg List.length hnil
    simp [framed, length4] at this
  · intro h
    rw [h]

theorem governed_unordered (registry : Bytes) : Unordered (governedRoot t registry) := by
  refine Unordered.of_some fun p q x h hx => ?_
  obtain ⟨hr, hf, hl, hroot, w, hw⟩ := governedRoot_iff.mp hx
  obtain ⟨hd, ha, hs, -⟩ := governedFiles_iff.mp hf
  have hpq := listed_reordered h hs
  rw [hpq] at hs hl hroot hw
  rw [h.entries.all_eq] at ha
  exact governedRoot_iff.mpr ⟨hr, governedFiles_iff.mpr ⟨h.isDirectory ▸ hd, ha, hs, rfl⟩, hl, hroot, h.write hw⟩

theorem vendor_unordered : Unordered (computeVendorTreeRoot t) := by
  refine Unordered.of_some fun p q x h hx => ?_
  obtain ⟨hd, ha, hs, hroot⟩ := vendorRoot_iff.mp hx
  have hpq := listed_reordered h hs
  rw [hpq] at hs hroot
  rw [h.entries.all_eq] at ha
  exact vendorRoot_iff.mpr ⟨h.isDirectory ▸ hd, ha, hs, hroot⟩

theorem packHash_unordered : Unordered (packHash t) := by
  refine Unordered.of_some fun p q x h hx => ?_
  obtain ⟨hn, hd, ha, hv⟩ := packHash_iff.mp hx
  rw [h.entries.all_eq] at ha
  rw [verifyFiles_perm asFile_nodup (h.entries.filterMap _)] at hv
  exact packHash_iff.mpr ⟨h.name ▸ hn, h.isDirectory ▸ hd, ha, hv⟩

theorem validRepoPath_text {r : Text} (h : validRepoPath t r) : 0 ∉ r := by
  intro h0
  simp only [validRepoPath, Bool.and_eq_true, Bool.not_eq_true', List.any_eq_false] at h
  exact absurd (h.1.1 0 h0) (by decide)

theorem roots_bind (t : Tools κ) (registry registry' : Bytes) :
    (Binds t exclusions (governedHashed t) (governedRoot t registry) (governedRoot t registry') ∧
      Unordered (governedRoot t registry)) ∧
    (Binds t [schemaManifest] (treeHashed t [schemaManifest]) (computeVendorTreeRoot t) (computeVendorTreeRoot t) ∧
      Unordered (computeVendorTreeRoot t)) ∧
    Binds t [manifestFile] (treeHashed t [manifestFile]) (packHash t) (packHash t) ∧ Unordered (packHash t) := by
  refine ⟨⟨?_, governed_unordered registry⟩, ⟨?_, vendor_unordered⟩, ?_, packHash_unordered⟩
  · intro p q x y hx hy hS
    obtain ⟨-, hf, hl, hx, -⟩ := governedRoot_iff.mp hx
    obtain ⟨-, hg, hm, hy, -⟩ := governedRoot_iff.mp hy
    have hs := (governedFiles_iff.mp hf).2.2.1
    have ht := (governedFiles_iff.mp hg).2.2.1
    rw [List.all_eq_true] at hl hm hs ht
    exact governed_binds (fun m h => ⟨hs m h, of_decide_eq_true (hl m h)⟩) (fun m h => ⟨ht m h, of_decide_eq_true (hm m h)⟩) hx hy hS
  · intro p q x y hx hy hS
    obtain ⟨-, hp, hs, hx⟩ := vendorRoot_iff.mp hx
    obtain ⟨-, hq, ht, hy⟩ := vendorRoot_iff.mp hy
    rw [List.all_eq_true] at hs ht
    exact tree_binds (fun m h => ⟨hs m h, (good_path (fun r => validRepoPath_text) hp h).2⟩)
      (fun m h => ⟨ht m h, (good_path (fun r => validRepoPath_text) hq h).2⟩) hx hy hS
  · intro p q x y hx hy hS
    have hp := (packHash_iff.mp hx).2.2.1
    have hq := (packHash_iff.mp hy).2.2.1
    exact tree_binds (fun m h => safePath_text (good_path (fun r hr => (safePath_text hr).2) hp h).1)
      (fun m h => safePath_text (good_path (fun r hr => (safePath_text hr).2) hq h).1) (packHash_ok hx) (packHash_ok hy) hS

/-! ### Small trees -/

def smallEntries (b : Bytes) : List (Text × Node) :=
  [(text "a\nb", .file b 1), (text "d", .directory), (text "d/c", .file [] 1), (schemaManifest, .file b 1)]

def smallTree (b : Bytes) : Pack where
  name := text "vendor"
  decoded := by decide
  isDirectory := true
  resolved := true
  entries := smallEntries b
  distinct := by
    show [text "a\nb", text "d", text "d/c", schemaManifest].Nodup
    decide
  beyond := fun _ => none
  unlinked := fun _ _ => rfl

def smallReversed (b : Bytes) : Pack := { smallTree b with
  entries := (smallEntries b).reverse
  distinct := by
    rw [List.map_reverse, List.nodup_reverse]
    exact (smallTree b).distinct
  unlinked := fun _ _ => rfl }

/-- Two trees with a newline in a name: the order of the entries does not matter, a byte does. -/
theorem roots_bind_small : ∃ x y, computeVendorTreeRoot smallTools (smallTree [1]) = some x ∧
    computeVendorTreeRoot smallTools (smallReversed [1]) = some x ∧
    computeVendorTreeRoot smallTools (smallTree [2]) = some y ∧ x ≠ y := by
  obtain ⟨-, ⟨hb, hu⟩, -⟩ := roots_bind smallTools [] []
  obtain ⟨x, hx⟩ := Option.isSome_iff_exists.mp (show (computeVendorTreeRoot smallTools (smallTree [1])).isSome by decide)
  obtain ⟨y, hy⟩ := Option.isSome_iff_exists.mp (show (computeVendorTreeRoot smallTools (smallTree [2])).isSome by decide)
  refine ⟨x, y, hx, ?_, hy, ?_⟩
  · rw [← hu (smallTree [1]) (smallReversed [1]) ⟨(List.reverse_perm _).symm, rfl, rfl⟩, hx]
  · rw [Ne, hb _ _ x y hx hy]
    · intro h
      exact absurd (congrFun h (text "a\nb")) (by decide)
    · have hfree : ∀ a ∈ treeHashed smallTools [schemaManifest] (smallTree [1]) ++
          treeHashed smallTools [schemaManifest] (smallTree [2]),
          ∀ b ∈ treeHashed smallTools [schemaManifest] (smallTree [1]) ++
          treeHashed smallTools [schemaManifest] (smallTree [2]), smallTools.sha256 a = smallTools.sha256 b → a = b := by
        decide +kernel
      exact fun a ha b hb => hfree a (List.mem_append.mpr ha) b (List.mem_append.mpr hb)

end BettingHelper.Trees
