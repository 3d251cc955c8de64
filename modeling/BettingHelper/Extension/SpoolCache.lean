/-
  BettingHelper.Extension.SpoolCache — the verified entries of a spool are never trusted
  wrongly.

  `validate` skips an entry's hashes when the whole entry is identical to one it verified
  under the same sequence and the same registry. What it skips is a function of the parts
  `identicalEntry` compares, and of the previous cursor hash, which the entry names and
  which is compared on every snapshot.

  Proved, over every sequence of snapshots, whatever is stored and whatever the registry
  is at each of them:
  - `snapshots_cached`: each snapshot is accepted exactly when a spool that has verified
    nothing accepts it.
-/

import BettingHelper.Extension.Spool

namespace BettingHelper.Extension.Spool

open Lib.Json (Text text natText)

variable {F : Type} {P : Platform F} {digest : List UInt8 → Text} {c : SpoolOptions F}

/-! ## Reading identical values -/

theorem get_proper {v u : Js F} {k : String} (hp : v.Proper) (h : v.get k = some u) : u.Proper := by
  cases v with
  | object r l =>
    obtain rfl := Option.some.inj h
    cases hk : l.lookup (text k) with
    | none => trivial
    | some w => exact hp.2.of_mem (Js.lookup_some_mem hk)
  | undefined => cases h
  | null => cases h
  | _ =>
    cases h
    trivial

/-- Reading a member of identical values and going on alike. -/
theorem get_bind {α : Type} {a b : Js F} (hp : a.Proper) (hi : a.identical P b = true) (k : String) {f g : Js F → Option α}
    (hf : ∀ u w, u.Proper → u.identical P w = true → f u = g w) : (a.get k).bind f = (b.get k).bind g := by
  rcases Js.get_identical hp hi k with ⟨h1, h2⟩ | ⟨u, w, h1, h2, h3⟩
  · rw [h1, h2]
    rfl
  · rw [h1, h2]
    exact hf u w (get_proper hp h1) h3

theorem decimalOf_identical {a b : Js F} (hp : a.Proper) (hi : a.identical P b = true) : decimalOf P a = decimalOf P b := by
  have hb : ∀ s, toBigInt P a s = toBigInt P b s := by
    intro s
    cases a with
    | number x =>
      cases b with
      | number y =>
        rw [Js.identical] at hi
        exact P.integer_eq x y hi
      | _ => simp [Js.identical] at hi
    | _ => cases b <;> simp_all [Js.identical, toBigInt]
  unfold decimalOf
  rw [Js.toStr_identical hp hi]
  simp only [hb]

theorem isText_identical {a b : Js F} (hi : a.identical P b = true) (t : Text) : isText P a t = isText P b t :=
  Js.strictEq_identical hi t

theorem cursor_identical {a b : Js F} (hp : a.Proper) (hi : a.identical P b = true) (registry : CanonicalRegistry) (t : Text) :
    cursor P digest c registry a (.string t) = cursor P digest c registry b (.string t) := by
  refine get_bind hp hi _ fun id id' hid hid' => get_bind hp hi _ fun sequence sequence' hs hs' =>
    get_bind hp hi _ fun hash hash' hh hh' => ?_
  have hstr : ∀ s : Text, Js.identical P (.string s) (.string s) = true := fun s => by simp [Js.identical]
  unfold canonicalContentHash literalObject canonicalPreimage
  refine congrArg (Option.map digest) (memberBytes_alike (n := _) ?_ ?_ ?_ (List.Perm.refl _) _ _)
  · simp only [List.map_cons, List.map_nil]
    rw [show [text "schema_version", text "discovery_run_id", text "browser_run_id", text "producer_id", text "stream_id",
      text "generation", text "sequence", text "raw_observation_hash", text "previous_cursor_hash"] =
      ["schema_version", "discovery_run_id", "browser_run_id", "producer_id", "stream_id", "generation", "sequence",
        "raw_observation_hash", "previous_cursor_hash"].map text from rfl]
    exact List.Nodup.map (fun a b h => Lib.Json.text_inj h) (by decide)
  · exact ⟨trivial, hid, trivial, trivial, trivial, trivial, hs, hh, trivial, trivial⟩
  · exact .cons ⟨rfl, hstr _⟩ (.cons ⟨rfl, hid'⟩ (.cons ⟨rfl, hstr _⟩ (.cons ⟨rfl, hstr _⟩ (.cons ⟨rfl, hstr _⟩
      (.cons ⟨rfl, hstr _⟩ (.cons ⟨rfl, hs'⟩ (.cons ⟨rfl, hh'⟩ (.cons ⟨rfl, hstr _⟩ .nil))))))))

/-- What is skipped says the same of identical records and observations. -/
theorem verifyEntry_identical {row row' raw raw' : Js F} (hp : row.Proper) (hr : raw.Proper)
    (hi : row.identical P row' = true) (hj : raw.identical P raw' = true) (registry : CanonicalRegistry) (t : Text) :
    verifyEntry P digest c registry (.string t) row raw = verifyEntry P digest c registry (.string t) row' raw' := by
  unfold verifyEntry
  refine get_bind hp hi _ fun size size' hs hs' => ?_
  rw [decimalOf_identical hs hs']
  refine congrArg (Option.bind _) (funext fun n => ?_)
  rw [show raw.canonicalBytes P = raw'.canonicalBytes P from congrArg (Option.map Js.utf8) (Js.canonicalize_identical hr hj)]
  refine congrArg (Option.bind _) (funext fun bytes => congrArg (Option.bind _) (funext fun _ => ?_))
  refine get_bind hp hi _ fun cursorHash cursorHash' _ hcur => ?_
  rw [cursor_identical hr hj]
  refine congrArg (Option.bind _) (funext fun h => ?_)
  rw [isText_identical hcur]
  refine congrArg (Option.bind _) (funext fun _ => ?_)
  refine get_bind hp hi _ fun hash hash' _ hh => ?_
  rw [hash_identical hp hi]
  refine congrArg (Option.bind _) (funext fun h => ?_)
  rw [isText_identical hh]
  refine congrArg (Option.bind _) (funext fun _ => ?_)
  refine get_bind hr hj _ fun rawHash rawHash' _ hrh => ?_
  rw [hash_identical hr hj]
  refine congrArg (Option.bind _) (funext fun h => ?_)
  rw [isText_identical hrh]

/-! ## The cache -/

/-- A verified entry: its hashes were checked, under the registry, with the previous cursor hash it names. -/
structure Verified (P : Platform F) (digest : List UInt8 → Text) (c : SpoolOptions F) (registry : CanonicalRegistry)
    (entry : Js F) : Prop where
  proper : entry.Proper
  proof : ∃ row raw t, entry.get "spool_record" = some row ∧ entry.get "sanitized_observation" = some raw ∧
    row.get "previous_cursor_hash" = some (.string t) ∧ verifyEntry P digest c registry (.string t) row raw = some ()

def AllVerified (P : Platform F) (digest : List UInt8 → Text) (c : SpoolOptions F) (registry : CanonicalRegistry)
    (verified : List (Text × Js F)) : Prop :=
  ∀ m ∈ verified, Verified P digest c registry m.2

theorem strictEq_string {v : Js F} {t : Text} (h : v.strictEq P (.string t) = true) : v = .string t := by
  cases v <;> simp_all [Js.strictEq]

theorem identical_string {v : Js F} {t : Text} (h : Js.identical P (.string t) v = true) : v = .string t := by
  cases v <;> simp_all [Js.identical]

/-- The cursor hash of a verified entry is a string. -/
theorem verifyEntry_cursor {registry : CanonicalRegistry} {previous row raw : Js F}
    (h : verifyEntry P digest c registry previous row raw = some ()) : ∃ t, row.get "cursor_hash" = some (.string t) := by
  simp only [verifyEntry, Option.bind_eq_bind, Option.bind_eq_some_iff, Option.guard_eq_some', exists_const] at h
  obtain ⟨-, -, -, -, -, -, -, v, hv, t, -, ht, -⟩ := h
  obtain rfl := strictEq_string ht
  exact ⟨t, hv⟩

/-- An entry identical to a verified one would be verified: what it names is compared with the previous cursor hash. -/
theorem verified_identical {registry : CanonicalRegistry} {entry e row raw : Js F} {index : Nat} {t : Text} {size : Int}
    (he : Verified P digest c registry e) (hi : e.identical P entry = true)
    (hc : Checked P c index (.string t) entry row raw size) : verifyEntry P digest c registry (.string t) row raw = some () := by
  obtain ⟨hp, row', raw', s, hrow, hraw, hs, hv⟩ := he
  have member : ∀ {k : String} {u w : Js F}, e.get k = some u → entry.get k = some w → u.identical P w = true := by
    intro k u w hu hw
    rcases Js.get_identical hp hi k with ⟨h, -⟩ | ⟨a, b, ha, hb, hab⟩
    · rw [hu] at h
      cases h
    · rw [hu] at ha
      rw [hw] at hb
      cases ha
      cases hb
      exact hab
  have hrr := member hrow hc.row_eq
  have hst : s = t := by
    obtain ⟨v, hv, he⟩ := hc.previous_eq
    obtain rfl := strictEq_string he
    rcases Js.get_identical (get_proper hp hrow) hrr "previous_cursor_hash" with ⟨h, -⟩ | ⟨a, b, ha, hb, hab⟩
    · rw [hs] at h
      cases h
    · rw [hs] at ha
      rw [hv] at hb
      cases ha
      cases hb
      cases identical_string hab
      rfl
  subst hst
  rw [← verifyEntry_identical (get_proper hp hrow) (get_proper hp hraw) hrr (member hraw hc.raw_eq)]
  exact hv

/-- The loop with every entry verified again. -/
def checkAll (P : Platform F) (digest : List UInt8 → Text) (c : SpoolOptions F) (registry : CanonicalRegistry) :
    Nat → Js F → Int → List (Js F) → Option (Js F × Int)
  | _, previous, bytes, [] => some (previous, bytes)
  | index, previous, bytes, entry :: rest => do
    let (row, raw, size) ← checkEntry P c index previous entry
    verifyEntry P digest c registry previous row raw
    checkAll P digest c registry (index + 1) ((row.get "cursor_hash").getD .undefined) (bytes + size) rest

/-- With sound entries to start from, the loop decides as it does with none, and leaves sound ones. -/
theorem validateEntries_sound {registry : CanonicalRegistry} (entries : List (Js F)) :
    ∀ {verified : List (Text × Js F)} {index : Nat} {t : Text} {bytes : Int}, AllVerified P digest c registry verified →
      (∀ entry ∈ entries, entry.Proper) →
      (validateEntries P digest c registry verified index (.string t) bytes entries).1 =
        checkAll P digest c registry index (.string t) bytes entries ∧
      AllVerified P digest c registry (validateEntries P digest c registry verified index (.string t) bytes entries).2 := by
  induction entries with
  | nil =>
    intro verified index t bytes hv hp
    exact ⟨rfl, hv⟩
  | cons entry rest ih =>
    intro verified index t bytes hv hp
    have hrest : ∀ entry ∈ rest, entry.Proper := fun e he => hp e (List.mem_cons_of_mem _ he)
    rw [validateEntries, checkAll]
    cases hce : checkEntry P c index (.string t) entry with
    | none => exact ⟨rfl, hv⟩
    | some p =>
      obtain ⟨row, raw, size⟩ := p
      have hc := (checkEntry_iff P c).mp hce
      simp only [Option.bind_eq_bind, Option.bind_some]
      split_ifs with hi
      · -- an entry verified before
        have hver : verifyEntry P digest c registry (.string t) row raw = some () := by
          cases hl : verified.lookup (natText (index + 1)) with
          | none =>
            rw [hl] at hi
            have := hc.row_eq
            cases entry <;> simp [Js.identical, Js.get] at hi this
          | some e =>
            rw [hl] at hi
            exact verified_identical (hv _ (Js.lookup_some_mem hl)) hi hc
        obtain ⟨u, hu⟩ := verifyEntry_cursor hver
        rw [hver, hu]
        exact ih hv hrest
      · cases hver : verifyEntry P digest c registry (.string t) row raw with
        | none => exact ⟨rfl, hv⟩
        | some _ =>
          obtain ⟨u, hu⟩ := verifyEntry_cursor hver
          rw [hu]
          refine ih ?_ hrest
          intro m hm
          rcases List.mem_cons.mp hm with rfl | hm
          · obtain ⟨v, hv, he⟩ := hc.previous_eq
            obtain rfl := strictEq_string he
            exact ⟨hp _ List.mem_cons_self, row, raw, t, hc.row_eq, hc.raw_eq, hv, hver⟩
          · exact hv m hm

/-! ## Runs -/

/-- What a spool has verified, it has verified under the registry it keeps. -/
def Cache.Sound (P : Platform F) (digest : List UInt8 → Text) (c : SpoolOptions F) (cache : Cache F) : Prop :=
  ∀ registry, cache.registry = some registry → AllVerified P digest c registry cache.entries

theorem fresh_sound {cache : Cache F} (h : Cache.Sound P digest c cache) (registry : CanonicalRegistry) :
    AllVerified P digest c registry (Cache.fresh cache registry).entries := by
  unfold Cache.fresh
  split_ifs with hr
  · exact h registry hr
  · intro m hm
    cases hm

theorem empty_sound : Cache.Sound P digest c (.empty : Cache F) := fun _ h => by cases h

theorem validate_sound {cache : Cache F} (h : Cache.Sound P digest c cache) (registry : CanonicalRegistry) (state : Js F)
    {entries : List (Js F)} (hp : ∀ entry ∈ entries, entry.Proper) :
    (validate P digest c registry cache state entries).1 = (validate P digest c registry .empty state entries).1 ∧
      Cache.Sound P digest c (validate P digest c registry cache state entries).2 := by
  have hs := @validateEntries_sound F P digest c registry entries _ 0 H0 0 (fresh_sound h registry) hp
  have he := @validateEntries_sound F P digest c registry entries _ 0 H0 0 (fresh_sound empty_sound registry) hp
  have sound : ∀ verified, AllVerified P digest c registry verified → Cache.Sound P digest c ⟨some registry, verified⟩ := by
    intro verified hv r hr
    cases hr
    exact hv
  unfold validate
  split_ifs
  · cases hst : checkState P c state with
    | none => exact ⟨rfl, sound _ (fresh_sound h registry)⟩
    | some _ =>
      simp only
      revert hs he
      generalize validateEntries P digest c registry (Cache.fresh cache registry).entries 0 (.string H0) 0 entries = a
      generalize validateEntries P digest c registry (Cache.fresh .empty registry).entries 0 (.string H0) 0 entries = b
      rintro ⟨ha, hv⟩ ⟨hb, -⟩
      obtain ⟨r, v⟩ := a
      obtain ⟨r', v'⟩ := b
      simp only at ha hb hv
      subst ha
      subst hb
      cases checkAll P digest c registry 0 (.string H0) 0 entries with
      | none => exact ⟨rfl, sound _ hv⟩
      | some p => exact ⟨rfl, sound _ hv⟩
  · exact ⟨rfl, h⟩

theorem snapshot_sound {cache : Cache F} (h : Cache.Sound P digest c cache) (registry : CanonicalRegistry) {db : Database F}
    (hp : db.Proper) : (snapshot P digest c registry cache db).1 = (snapshot P digest c registry .empty db).1 ∧
      Cache.Sound P digest c (snapshot P digest c registry cache db).2 := by
  unfold snapshot
  split_ifs
  · refine validate_sound h registry _ ?_
    intro entry he
    obtain ⟨row, hr, rfl⟩ := List.mem_map.mp he
    exact hp row hr
  · exact ⟨rfl, h⟩

/-- Acceptance, the cache apart. -/
structure Readable (P : Platform F) (digest : List UInt8 → Text) (c : SpoolOptions F) (registry : CanonicalRegistry)
    (db : Database F) : Prop where
  configured : configured P c = true
  keyed : ∀ row ∈ db.rows, keyed c row = some ()
  state : checkState P c (stateOf c db) = some ()
  entries : ∃ previous bytes, checkAll P digest c registry 0 (.string H0) 0 (db.rows.map (·.entry)) = some (previous, bytes) ∧
    checkCounters P (stateOf c db) (db.rows.map (·.entry)) previous bytes = some ()

theorem isSome_unit {o : Option Unit} : o.isSome = true ↔ o = some () := by
  cases o with
  | none => simp
  | some u => simp

theorem snapshot_iff {cache : Cache F} (h : Cache.Sound P digest c cache) {registry : CanonicalRegistry} {db : Database F}
    (hp : db.Proper) : (snapshot P digest c registry cache db).1 = true ↔ Readable P digest c registry db := by
  have hentries : ∀ entry ∈ db.rows.map (·.entry), entry.Proper := by
    intro entry he
    obtain ⟨row, hr, rfl⟩ := List.mem_map.mp he
    exact hp row hr
  obtain ⟨hs, -⟩ := @validateEntries_sound F P digest c registry (db.rows.map (·.entry)) _ 0 H0 0 (fresh_sound h registry) hentries
  unfold snapshot validate
  constructor
  · intro ha
    split_ifs at ha with hk hc
    cases hst : checkState P c (stateOf c db) with
    | none =>
      rw [hst] at ha
      cases ha
    | some u =>
      rw [hst] at ha
      simp only at ha
      split at ha
      · cases ha
      · next previous bytes verified he =>
        rw [he] at hs
        exact ⟨hc, fun row hr => isSome_unit.mp (hk.2 row hr), hst, previous, bytes, hs.symm, isSome_unit.mp ha⟩
  · rintro ⟨hc, hk, hst, previous, bytes, he, hcount⟩
    rw [if_pos ⟨hc, fun row hr => isSome_unit.mpr (hk row hr)⟩, if_pos hc, hst]
    simp only
    rw [he] at hs
    split
    · next heq =>
      rw [heq] at hs
      cases hs
    · next heq =>
      rw [heq] at hs
      cases hs
      exact isSome_unit.mpr hcount

/-- The caches a spool can have: it has taken snapshots. -/
inductive Reached (P : Platform F) (digest : List UInt8 → Text) (c : SpoolOptions F) : Cache F → Prop
  | empty : Reached P digest c .empty
  | snapshot {cache : Cache F} (registry : CanonicalRegistry) {db : Database F} : Reached P digest c cache → db.Proper →
      Reached P digest c (snapshot P digest c registry cache db).2

theorem Reached.sound {cache : Cache F} (h : Reached P digest c cache) : Cache.Sound P digest c cache := by
  induction h with
  | empty => exact empty_sound
  | snapshot registry _ hp ih => exact (snapshot_sound ih registry hp).2

/-- Whether each snapshot is accepted: the registry, and what is stored, are anything at each. -/
def snapshots (P : Platform F) (digest : List UInt8 → Text) (c : SpoolOptions F) :
    Cache F → List (CanonicalRegistry × { db : Database F // db.Proper }) → List Bool
  | _, [] => []
  | cache, (registry, db) :: rest =>
    (snapshot P digest c registry cache db.1).1 :: snapshots P digest c (snapshot P digest c registry cache db.1).2 rest

theorem snapshots_sound {cache : Cache F} (h : Cache.Sound P digest c cache)
    (l : List (CanonicalRegistry × { db : Database F // db.Proper })) :
    snapshots P digest c cache l = l.map fun s => (snapshot P digest c s.1 .empty s.2.1).1 := by
  induction l generalizing cache with
  | nil => rfl
  | cons s l ih =>
    obtain ⟨registry, db⟩ := s
    obtain ⟨h1, h2⟩ := snapshot_sound h registry db.2
    rw [snapshots, List.map_cons, h1, ih h2]

theorem snapshots_cached (P : Platform F) (digest : List UInt8 → Text) (c : SpoolOptions F)
    (l : List (CanonicalRegistry × { db : Database F // db.Proper })) :
    snapshots P digest c .empty l = l.map fun s => (snapshot P digest c s.1 .empty s.2.1).1 :=
  snapshots_sound empty_sound l

end BettingHelper.Extension.Spool
