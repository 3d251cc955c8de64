/-
  BettingHelper.Hashing.Preimage — what the content hash of an artifact is the SHA-256 of
  (`canonical.py`): the domain of its type, then RFC 8785 of the artifact without the members
  the registry excludes.

  RFC 8785 and the numbers of float literals are parameters. The registry is the JSON of its
  file; the cache of `_domain` is keyed by all of the file's bytes, and is left out.

  Proved (`preimage_injective`): in a registry of the shape `validate_canonical_registry`
  wants, artifacts of one preimage have one type, and are equal but for the excluded members.
-/

import BettingHelper.Lib.Checked
import BettingHelper.Lib.JsonPointer
import BettingHelper.Lib.PyValue
import BettingHelper.Wire.Encoding

namespace BettingHelper.Hashing

open BettingHelper.Lib BettingHelper.Lib.Json BettingHelper.Lib.JsonPointer

inductive HashError where
  /-- Of `parse_strict_json` or `_validate_unicode`. -/
  | canonical (e : Wire.CanonicalError)
  /-- `SCHEMA_INVALID` -/
  | schemaInvalid
  /-- `UNSUPPORTED_VERSION_OR_ALGORITHM` -/
  | unsupportedVersionOrAlgorithm
  /-- `UNREGISTERED_HASH_EXCLUSION` -/
  | unregisteredHashExclusion
  /-- `SCHEMA_INVALID_BEFORE_CANONICAL_HASH` -/
  | schemaInvalidBeforeCanonicalHash
  /-- An assertion, a `KeyError`, a `TypeError`, or what rfc8785 raises. -/
  | other
  deriving DecidableEq

structure Host where
  /-- `unicodedata.normalize("NFC", s) == s` -/
  nfc : Text → Bool
  /-- `rfc8785.dumps` -/
  jcs : Doc → Option (List UInt8)
  /-- The number of a float literal. -/
  number : Text → Rat

/-- The integer a float literal equals. -/
def Host.whole (h : Host) (x : Text) : Option Int := if (h.number x).den = 1 then some (h.number x).num else none

/-! ## The registry -/

/-- `v[k]` -/
def member (v : Doc) (k : String) : Except HashError Doc :=
  match item v k with
  | some x => .ok x
  | none => .error .other

/-- `tuple(v)` -/
def tuple : Doc → Except HashError (List Doc)
  | .arr l => .ok l
  | .str s => .ok (s.map fun c => .str [c])
  | .obj l => .ok (l.map fun m => .str m.1)
  | _ => .error .other

/-- `bool(v)` -/
def truthy (h : Host) : Doc → Bool
  | .null => false
  | .bool b => b
  | .int n => n ≠ 0
  | .float x => h.number x ≠ 0
  | .str s => s ≠ []
  | .arr l => l ≠ []
  | .obj l => l ≠ []

/-- The class or group lists the type. -/
def listed (artifactType : Text) (entry : Doc) : Bool :=
  match dictGet entry "artifact_types" with
  | .arr l => .str artifactType ∈ l
  | _ => false

/-- The exclusions of the one group that lists the type. -/
def registeredExclusions (artifactType : Text) (groups : List Doc) : Except HashError Doc :=
  match groups.filter (listed artifactType) with
  | [g] =>
    match dictGet g "required_excluded_json_pointers" with
    | .arr r => .ok (.arr r)
    | _ => .error .unregisteredHashExclusion
  | _ => .error .unregisteredHashExclusion

/-- `_validate_registered_exclusions` -/
def validateRegisteredExclusions (h : Host) (artifactType : Text) (exclusions registry : Doc) : Except HashError Unit :=
  match dictGet registry "domain_validation_classes", dictGet registry "schema_binding_groups" with
  | .arr classes, .arr groups =>
    match classes.filter (listed artifactType) with
    | [c] =>
      if dictGet c "class_id" = str "GOVERNED_NO_EXCLUSION" then require (!truthy h exclusions) .unregisteredHashExclusion
      else do
        require (dictGet c "class_id" = str "SCHEMA_GATED_SELF_HASH") .unregisteredHashExclusion
        let registered ← registeredExclusions artifactType groups
        require (equal h.whole exclusions registered) .unregisteredHashExclusion
    | _ => .error .unregisteredHashExclusion
  | _, _ => .error .unregisteredHashExclusion

/-- `registry["domains"]`, of entries that have an artifact type. -/
def entries (registry : Doc) : Except HashError (List Doc) := do
  let d ← member registry "domains"
  let l ← tuple d
  require (l.all fun e => (item e "artifact_type").isSome) .other
  return l

/-- The domain and the exclusions of an entry. -/
def entryDomain (h : Host) (artifactType : Text) (registry entry : Doc) : Except HashError (Text × List Doc) := do
  let exclusions ← member entry "excluded_json_pointers"
  validateRegisteredExclusions h artifactType exclusions registry
  let d ← member entry "domain"
  match d with
  | .str domain => do
    let l ← tuple exclusions
    return (domain, l)
  | _ => .error .schemaInvalid

/-- `_domain` -/
def domainOf (h : Host) (registry : Doc) (artifactType : Text) : Except HashError (Text × List Doc) := do
  let l ← entries registry
  match l.filter fun e => item e "artifact_type" = some (.str artifactType) with
  | [entry] => entryDomain h artifactType registry entry
  | _ => .error .unsupportedVersionOrAlgorithm

/-! ## The preimage -/

/-- The members left when those of the pointers are deleted. -/
def project (l : List (Text × Doc)) : List Doc → Except HashError (List (Text × Doc))
  | [] => .ok l
  | .str pointer :: r =>
    if pointer.count slash ≠ 1 then .error .unregisteredHashExclusion
    else if decodeToken pointer.tail ∈ l.map (·.1) then project (without l (decodeToken pointer.tail)) r
    else .error .schemaInvalidBeforeCanonicalHash
  | _ :: _ => .error .other

/-- `domain.encode()` -/
def encodeDomain (domain : Text) : Except HashError (List UInt8) := if domain.all isScalar then .ok (encode domain) else .error .other

def dumpJcs (h : Host) (v : Doc) : Except HashError (List UInt8) :=
  match h.jcs v with
  | some c => .ok c
  | none => .error .other

def isObject : Doc → Bool
  | .obj _ => true
  | _ => false

def parseRegistry (h : Host) (registryBytes : List UInt8) : Except HashError Doc :=
  match Wire.parseStrictJson h.nfc registryBytes with
  | .ok v => if isObject v then .ok v else .error .other
  | .error e => .error (.canonical e)

def membersOf : Doc → Except HashError (List (Text × Doc))
  | .obj l => .ok l
  | _ => .error .schemaInvalid

def canonicalPreimage (h : Host) (registryBytes : List UInt8) (artifactType : Text) (value : Doc) :
    Except HashError (List UInt8) := do
  let registry ← parseRegistry h registryBytes
  let d ← domainOf h registry artifactType
  let l ← membersOf value
  let projected ← project l d.2
  require (Wire.validUnicode h.nfc (.obj projected)) (.canonical .nonNfcOrInvalidUnicode)
  let canonical ← dumpJcs h (.obj projected)
  let domain ← encodeDomain d.1
  return domain ++ canonical

/-! ## Artifacts of one preimage -/

/-- `HYBRID-DISCOVERY/v6.2/<type>/v1` and a NUL. -/
def typeDomain (artifactType : Text) : Text := text "HYBRID-DISCOVERY/v6.2/" ++ artifactType ++ text "/v1" ++ [0]

/-- The shape `validate_canonical_registry` wants: an entry a type, and the domain of each. -/
structure Closed (registry : Doc) : Prop where
  unique : ∀ l, entries registry = .ok l → (l.map (item · "artifact_type")).Nodup
  domain : ∀ l, entries registry = .ok l → ∀ e ∈ l, ∀ t, item e "artifact_type" = some (.str t) →
    0 ∉ t ∧ item e "domain" = some (.str (typeDomain t))

/-- The pointers are those an entry of the type excludes: none, or those of a group that lists
the type. -/
def Excludes (registry : Doc) (artifactType : Text) (pointers : List Text) : Prop :=
  (∃ l e x, entries registry = .ok l ∧ e ∈ l ∧ item e "artifact_type" = some (.str artifactType) ∧
    item e "excluded_json_pointers" = some x ∧ tuple x = .ok (pointers.map .str)) ∧
  (pointers = [] ∨ ∃ groups g, dictGet registry "schema_binding_groups" = .arr groups ∧ g ∈ groups ∧ listed artifactType g ∧
    dictGet g "required_excluded_json_pointers" = .arr (pointers.map .str))

/-- The member a pointer of one token refers to. -/
def referred (pointer : Text) : Text := reference pointer.tail

/-- The members none of the pointers refers to. -/
def strip (pointers : List Text) (l : List (Text × Doc)) : List (Text × Doc) := l.filter fun m => m.1 ∉ pointers.map referred

theorem project_ok {l p : List (Text × Doc)} {r : List Doc} (h : project l r = .ok p) :
    ∃ pointers, r = pointers.map .str ∧ (∀ q ∈ pointers, referred q ∈ l.map (·.1)) ∧ p = strip pointers l := by
  induction r generalizing l with
  | nil =>
    cases h
    exact ⟨[], rfl, by simp, by simp [strip]⟩
  | cons v r ih =>
    cases v with
    | str q =>
      rw [project] at h
      by_cases hc : q.count slash = 1
      · rw [if_neg (by simpa using hc)] at h
        by_cases hk : decodeToken q.tail ∈ l.map (·.1)
        · rw [if_pos hk] at h
          obtain ⟨pointers, rfl, hin, rfl⟩ := ih h
          have hq : decodeToken q.tail = referred q := replace_eq _
          refine ⟨q :: pointers, rfl, ?_, ?_⟩
          · intro s hs
            cases hs with
            | head => rwa [← hq]
            | tail _ hs =>
              obtain ⟨m, hm, he⟩ := List.mem_map.mp (hin s hs)
              exact List.mem_map.mpr ⟨m, (List.mem_filter.mp hm).1, he⟩
          · rw [hq, strip, strip, without, List.filter_filter]
            refine List.filter_congr fun m _ => ?_
            simp [Bool.and_comm]
        · rw [if_neg hk] at h
          cases h
      · rw [if_pos (by simpa using hc)] at h
        cases h
    | _ => cases h

theorem equalItems_strs {whole : Text → Option Int} {pointers : List Text} {r : List Doc}
    (h : equalItems whole (pointers.map .str) r = true) : r = pointers.map .str := by
  induction pointers generalizing r with
  | nil =>
    cases r with
    | nil => rfl
    | cons v r => simp [equalItems] at h
  | cons p pointers ih =>
    cases r with
    | nil => simp [equalItems] at h
    | cons v r =>
      simp only [List.map_cons, equalItems, Bool.and_eq_true, equal_str_left] at h
      rw [List.map_cons, ← ih h.2, h.1]

/-- Exclusions that pass are none, or those of the group. -/
theorem registered_of_ok {h : Host} {t : Text} {x registry : Doc} {pointers : List Text}
    (hv : validateRegisteredExclusions h t x registry = .ok ()) (hx : tuple x = .ok (pointers.map .str)) :
    pointers = [] ∨ ∃ groups g, dictGet registry "schema_binding_groups" = .arr groups ∧ g ∈ groups ∧ listed t g ∧
      dictGet g "required_excluded_json_pointers" = .arr (pointers.map .str) := by
  unfold validateRegisteredExclusions at hv
  split at hv
  · rename_i classes groups hc hg
    split at hv
    · split at hv
      · -- the class of the types without exclusions
        have hf := require_ok.mp hv
        left
        cases x with
        | arr l =>
          cases l with
          | nil => exact List.map_eq_nil_iff.mp (Except.ok.inj hx).symm
          | cons a l => simp [truthy] at hf
        | str l =>
          cases l with
          | nil => exact List.map_eq_nil_iff.mp (Except.ok.inj hx).symm
          | cons a l => simp [truthy] at hf
        | obj l =>
          cases l with
          | nil => exact List.map_eq_nil_iff.mp (Except.ok.inj hx).symm
          | cons a l => simp [truthy] at hf
        | _ => cases hx
      · obtain ⟨-, hv⟩ := require_bind_ok.mp hv
        obtain ⟨registered, hr, hv⟩ := bind_ok.mp hv
        have he := require_ok.mp hv
        right
        unfold registeredExclusions at hr
        split at hr
        · rename_i g hf
          have hg' : g ∈ groups.filter (listed t) := by simp [hf]
          obtain ⟨hmem, hl⟩ := List.mem_filter.mp hg'
          split at hr
          · rename_i r hd
            cases hr
            cases x with
            | arr l =>
              cases hx
              rw [equal] at he
              exact ⟨groups, g, hg, hmem, hl, by rw [hd, equalItems_strs he]⟩
            | str s => simp [equal, integral] at he
            | obj m => simp [equal, integral] at he
            | _ => cases hx
          · cases hr
        · cases hr
    · cases hv
  · cases hv

theorem entryDomain_ok {h : Host} {t : Text} {registry entry : Doc} {d : Text × List Doc}
    (hd : entryDomain h t registry entry = .ok d) : item entry "domain" = some (.str d.1) ∧
    ∃ x, item entry "excluded_json_pointers" = some x ∧ validateRegisteredExclusions h t x registry = .ok () ∧ tuple x = .ok d.2 := by
  obtain ⟨x, hx, hd⟩ := bind_ok.mp hd
  obtain ⟨⟨⟩, hv, hd⟩ := bind_ok.mp hd
  obtain ⟨v, hm, hd⟩ := bind_ok.mp hd
  have member_ok : ∀ {k : String} {y : Doc}, member entry k = .ok y → item entry k = some y := by
    intro k y hk
    unfold member at hk
    cases hi : item entry k with
    | none => simp [hi] at hk
    | some z =>
      rw [hi] at hk
      cases hk
      rfl
  cases v with
  | str s =>
    obtain ⟨l, hl, hd⟩ := bind_ok.mp hd
    cases pure_ok.mp hd
    exact ⟨member_ok hm, x, member_ok hx, hv, hl⟩
  | _ => cases hd

/-- The one entry of a type gives its domain and exclusions. -/
theorem domainOf_ok {h : Host} {registry : Doc} {t : Text} {d : Text × List Doc} (hd : domainOf h registry t = .ok d) :
    ∃ l e x, entries registry = .ok l ∧ e ∈ l ∧ item e "artifact_type" = some (.str t) ∧ item e "domain" = some (.str d.1) ∧
      item e "excluded_json_pointers" = some x ∧ validateRegisteredExclusions h t x registry = .ok () ∧ tuple x = .ok d.2 := by
  obtain ⟨l, hl, hd⟩ := bind_ok.mp hd
  match hf : l.filter fun e => item e "artifact_type" = some (.str t) with
  | [e] =>
    simp only [hf] at hd
    have he : e ∈ l.filter fun e => item e "artifact_type" = some (.str t) := by simp [hf]
    obtain ⟨hmem, ht⟩ := List.mem_filter.mp he
    obtain ⟨hdom, x, hx⟩ := entryDomain_ok hd
    exact ⟨l, e, x, hl, hmem, by simpa using ht, hdom, hx⟩
  | [] =>
    simp only [hf] at hd
    cases hd
  | _ :: _ :: _ =>
    simp only [hf] at hd
    cases hd

/-- Texts that end at their first NUL are told from what follows. -/
theorem encode_split {s t : Text} {x y : List UInt8} (hs : s.all isScalar) (ht : t.all isScalar) (hs0 : 0 ∉ s) (ht0 : 0 ∉ t)
    (he : encode (s ++ [0]) ++ x = encode (t ++ [0]) ++ y) : s = t ∧ x = y := by
  induction s generalizing t with
  | nil =>
    cases t with
    | nil => exact ⟨rfl, List.append_cancel_left he⟩
    | cons d t =>
      simp only [List.nil_append, List.cons_append, encode, List.flatMap_cons, List.append_assoc] at he
      have hc := congrArg Char.toNat (utf8_cancel he).1
      simp only [List.all_cons, Bool.and_eq_true] at ht
      rw [toNat_ofNat ht.1] at hc
      exact absurd (List.mem_cons.mpr (.inl hc)) ht0
  | cons c s ih =>
    simp only [List.all_cons, Bool.and_eq_true] at hs
    cases t with
    | nil =>
      simp only [List.nil_append, List.cons_append, encode, List.flatMap_cons, List.append_assoc] at he
      have hc := congrArg Char.toNat (utf8_cancel he).1
      rw [toNat_ofNat hs.1] at hc
      exact absurd (List.mem_cons.mpr (.inl hc.symm)) hs0
    | cons d t =>
      simp only [List.all_cons, Bool.and_eq_true] at ht
      simp only [List.cons_append, encode, List.flatMap_cons, List.append_assoc] at he
      obtain ⟨hc, hr⟩ := utf8_cancel he
      have hcd := congrArg Char.toNat hc
      rw [toNat_ofNat hs.1, toNat_ofNat ht.1] at hcd
      obtain ⟨rfl, hxy⟩ := ih hs.2 ht.2 (fun h => hs0 (.tail _ h)) (fun h => ht0 (.tail _ h)) hr
      exact ⟨by rw [hcd], hxy⟩

theorem typeDomain_inj {s t : Text} (h : text "HYBRID-DISCOVERY/v6.2/" ++ s ++ text "/v1" = text "HYBRID-DISCOVERY/v6.2/" ++ t ++ text "/v1") :
    s = t :=
  List.append_cancel_left (List.append_cancel_right h)

theorem zero_typeDomain {t : Text} (ht : 0 ∉ t) : 0 ∉ text "HYBRID-DISCOVERY/v6.2/" ++ t ++ text "/v1" := by
  have hp : 0 ∉ text "HYBRID-DISCOVERY/v6.2/" := by decide
  have hv : 0 ∉ text "/v1" := by decide
  simp only [List.mem_append, not_or]
  exact ⟨⟨hp, ht⟩, hv⟩

/-- A preimage is the domain of the type, and RFC 8785 of the artifact without the members the
entry of the type excludes. -/
theorem preimage_ok {h : Host} {registryBytes : List UInt8} {t : Text} {v : Doc} {b : List UInt8}
    (hok : canonicalPreimage h registryBytes t v = .ok b) : ∃ registry l e x pointers m c, parseRegistry h registryBytes = .ok registry ∧
      entries registry = .ok l ∧ e ∈ l ∧ item e "artifact_type" = some (.str t) ∧ item e "excluded_json_pointers" = some x ∧
      validateRegisteredExclusions h t x registry = .ok () ∧ tuple x = .ok (pointers.map .str) ∧ v = .obj m ∧ (∀ p ∈ pointers, referred p ∈ m.map (·.1)) ∧
      h.jcs (.obj (strip pointers m)) = some c ∧
      ∃ domain, item e "domain" = some (.str domain) ∧ domain.all isScalar ∧ b = encode domain ++ c := by
  unfold canonicalPreimage at hok
  obtain ⟨registry, hreg, hok⟩ := bind_ok.mp hok
  obtain ⟨⟨domain, exclusions⟩, hd, hok⟩ := bind_ok.mp hok
  obtain ⟨m, hm, hok⟩ := bind_ok.mp hok
  obtain ⟨p, hp, hok⟩ := bind_ok.mp hok
  obtain ⟨-, hok⟩ := require_bind_ok.mp hok
  obtain ⟨c, hc, hok⟩ := bind_ok.mp hok
  obtain ⟨db, hdb, hok⟩ := bind_ok.mp hok
  obtain ⟨l, e, x, hl, he, ht, hdom, hx, hvalid, htuple⟩ := domainOf_ok hd
  obtain ⟨pointers, rfl, hin, rfl⟩ := project_ok hp
  have hv : v = .obj m := by
    cases v with
    | obj m' =>
      cases hm
      rfl
    | _ => cases hm
  have hjcs : h.jcs (.obj (strip pointers m)) = some c := by
    unfold dumpJcs at hc
    split at hc
    · cases hc
      assumption
    · cases hc
  refine ⟨registry, l, e, x, pointers, m, c, hreg, hl, he, ht, hx, hvalid, htuple, hv, hin, hjcs, domain, hdom, ?_⟩
  unfold encodeDomain at hdb
  by_cases hs : domain.all isScalar
  · rw [if_pos hs] at hdb
    cases hdb
    exact ⟨hs, (pure_ok.mp hok).symm⟩
  · rw [if_neg hs] at hdb
    cases hdb

/-- Artifacts of one preimage have one type, and are equal once the members their registry
excludes are removed. -/
theorem preimage_injective {h : Host} {registryBytes : List UInt8} {registry : Doc} {t₁ t₂ : Text} {v₁ v₂ : Doc} {b : List UInt8}
    (hr : parseRegistry h registryBytes = .ok registry) (hc : Closed registry)
    (hjcs : ∀ v w c, h.jcs v = some c → h.jcs w = some c → Alike h.number v w)
    (h₁ : canonicalPreimage h registryBytes t₁ v₁ = .ok b) (h₂ : canonicalPreimage h registryBytes t₂ v₂ = .ok b) :
    t₁ = t₂ ∧ ∃ pointers m₁ m₂, Excludes registry t₁ pointers ∧ v₁ = .obj m₁ ∧ v₂ = .obj m₂ ∧
      (∀ p ∈ pointers, referred p ∈ m₁.map (·.1) ∧ referred p ∈ m₂.map (·.1)) ∧
      Alike h.number (.obj (strip pointers m₁)) (.obj (strip pointers m₂)) := by
  obtain ⟨_, l, e, x, ps, m₁, c₁, hr₁, hl, he, ht, hx, hv, htuple, rfl, hin, hc₁, d, hd, hs, rfl⟩ := preimage_ok h₁
  obtain ⟨_, l', e', x', ps', m₂, c₂, hr₂, hl', he', ht', hx', -, htuple', rfl, hin', hc₂, d', hd', hs', hb⟩ := preimage_ok h₂
  cases hr.symm.trans hr₁
  cases hr.symm.trans hr₂
  cases hl.symm.trans hl'
  -- the domains are those of the types, each up to its NUL
  obtain ⟨h0, hdom⟩ := hc.domain l hl e he t₁ ht
  obtain ⟨h0', hdom'⟩ := hc.domain l hl e' he' t₂ ht'
  cases hdom.symm.trans hd
  cases hdom'.symm.trans hd'
  rw [typeDomain, List.all_append, Bool.and_eq_true] at hs hs'
  obtain ⟨htt, hcc⟩ := encode_split hs.1 hs'.1 (zero_typeDomain h0) (zero_typeDomain h0') hb
  have ht₁₂ := typeDomain_inj htt
  subst ht₁₂ hcc
  -- one type has one entry
  have hee : e = e' := List.inj_on_of_nodup_map (hc.unique l hl) he he' (ht.trans ht'.symm)
  subst hee
  cases hx.symm.trans hx'
  have hps : ps = ps' := by
    have := Except.ok.inj (htuple.symm.trans htuple')
    exact List.map_injective_iff.mpr (fun _ _ hst => Value.str.inj hst) this
  subst hps
  exact ⟨rfl, ps, m₁, m₂, ⟨⟨l, e, x, hl, he, ht, hx, htuple⟩, registered_of_ok hv htuple⟩, rfl, rfl,
    fun p hp => ⟨hin p hp, hin' p hp⟩, hjcs _ _ _ hc₁ hc₂⟩

/-! ## Two artifacts of one type -/

section Receipts

def gateEntry : Doc := record [("artifact_type", str "GateReceipt"), ("domain", .str (typeDomain (text "GateReceipt"))),
  ("excluded_json_pointers", strs ["/content_hash", "/signature"])]

def bodyEntry : Doc := record [("artifact_type", str "LoopbackBody"), ("domain", .str (typeDomain (text "LoopbackBody"))),
  ("excluded_json_pointers", .arr [])]

def smallRegistry : Doc := record [
  ("domain_validation_classes", .arr [
    record [("class_id", str "SCHEMA_GATED_SELF_HASH"), ("artifact_types", strs ["GateReceipt"])],
    record [("class_id", str "GOVERNED_NO_EXCLUSION"), ("artifact_types", strs ["LoopbackBody"])]]),
  ("domains", .arr [gateEntry, bodyEntry]),
  ("schema_binding_groups", .arr [
    record [("artifact_types", strs ["GateReceipt"]), ("required_excluded_json_pointers", strs ["/content_hash", "/signature"])]])]

def smallReceipt (contentHash signature : String) : Doc :=
  record [("content_hash", str contentHash), ("signature", str signature), ("status", str "PASS")]

/-- RFC 8785 on what is left of `smallReceipt`. -/
def smallHost : Host where
  nfc t := t.all (· < 0x80)
  jcs v := if v = record [("status", str "PASS")] then some v.bytes else none
  number _ := 0

theorem parseRegistry_ok {h : Host} {registryBytes : List UInt8} {v : Doc} (hp : Wire.parseStrictJson h.nfc registryBytes = .ok v)
    (ho : isObject v = true) : parseRegistry h registryBytes = .ok v := by
  simp only [parseRegistry, hp]
  rw [if_pos ho]

theorem small_parse : parseRegistry smallHost smallRegistry.bytes = .ok smallRegistry := by
  have ho : Ordered smallRegistry := by
    refine ordered_record ?_
    simp [gateEntry, bodyEntry, strs, Ordered, OrderedItems, ordered_record, str]
  have ha : Ascii smallRegistry := by
    refine ascii_record ?_
    simp [gateEntry, bodyEntry, strs, Ascii, AsciiItems, ascii_record, str, typeDomain, text]
  have hp : Wire.parseStrictJson smallHost.nfc smallRegistry.bytes = .ok smallRegistry :=
    Wire.parseStrictJson_bytes (fun _ ht => ht) ha ho
  exact parseRegistry_ok hp rfl

theorem small_entries : entries smallRegistry = .ok [gateEntry, bodyEntry] := by
  have h : (entries smallRegistry).toOption = some [gateEntry, bodyEntry] := by decide
  cases he : entries smallRegistry with
  | error e =>
    rw [he] at h
    cases h
  | ok l =>
    rw [he] at h
    rw [Option.some.inj h]

theorem small_closed : Closed smallRegistry := by
  constructor
  · intro l hl
    cases small_entries.symm.trans hl
    decide
  · intro l hl e he t ht
    cases small_entries.symm.trans hl
    simp only [List.mem_cons, List.not_mem_nil, or_false] at he
    rcases he with rfl | rfl
    · have hg : item gateEntry "artifact_type" = some (str "GateReceipt") := by decide
      cases hg.symm.trans ht
      decide
    · have hb : item bodyEntry "artifact_type" = some (str "LoopbackBody") := by decide
      cases hb.symm.trans ht
      decide

/-- The preimage of both receipts. -/
def smallPreimage : List UInt8 := encode (typeDomain (text "GateReceipt")) ++ (record [("status", str "PASS")]).bytes

theorem small_preimage : ∀ v ∈ [smallReceipt "one" "two", smallReceipt "three" "four"],
    canonicalPreimage smallHost smallRegistry.bytes (text "GateReceipt") v = .ok smallPreimage := by
  have h : ∀ v ∈ [smallReceipt "one" "two", smallReceipt "three" "four"],
      (canonicalPreimage smallHost smallRegistry.bytes (text "GateReceipt") v).toOption = some smallPreimage := by
    unfold canonicalPreimage
    rw [small_parse]
    simp only [List.forall_mem_cons]
    decide
  intro v hv
  have hs := h v hv
  cases hp : canonicalPreimage smallHost smallRegistry.bytes (text "GateReceipt") v with
  | error e =>
    rw [hp] at hs
    cases hs
  | ok b =>
    rw [hp] at hs
    rw [Option.some.inj hs]

theorem alike_single {number : Text → Rat} {k t : String} : Alike number (record [(k, str t)]) (record [(k, str t)]) := by
  have hd : dict [(text k, str t)] = [(text k, str t)] := dict_eq (List.pairwise_singleton _ _)
  rw [record, List.map_singleton, hd]
  exact ⟨rfl, ⟨str t, List.lookup_cons_self, rfl⟩, trivial⟩

theorem preimage_injective_receipts : ∃ pointers m₁ m₂, Excludes smallRegistry (text "GateReceipt") pointers ∧
    smallReceipt "one" "two" = .obj m₁ ∧ smallReceipt "three" "four" = .obj m₂ ∧
    (∀ p ∈ pointers, referred p ∈ m₁.map (·.1) ∧ referred p ∈ m₂.map (·.1)) ∧
    Alike smallHost.number (.obj (strip pointers m₁)) (.obj (strip pointers m₂)) := by
  have hjcs : ∀ v w c, smallHost.jcs v = some c → smallHost.jcs w = some c → Alike smallHost.number v w := by
    intro v w c hv hw
    simp only [smallHost, Option.ite_none_right_eq_some] at hv hw
    rw [hv.1, hw.1]
    exact alike_single
  exact (preimage_injective small_parse small_closed hjcs (small_preimage _ (.head _)) (small_preimage _ (.tail _ (.head _)))).2

end Receipts

end BettingHelper.Hashing
