/-
  BettingHelper.Authorization.Consumption — a history of evaluations, each against the records
  consumed before it: a record of one use that is evaluated `VALID` is appended to them.

  Proved (`consumed_apart`): the records so consumed differ pairwise in their content hash, in
  their serial, and in their nonce, the last two within what they are unique in. The checks
  of a replay read three identities; what separates two records is that each of the three
  is there (`Usable`), by the schema, the registry and RFC 8785 (`Sealed`).
-/

import BettingHelper.Authorization.Evaluate

namespace BettingHelper.Authorization

open BettingHelper.Lib BettingHelper.Lib.Json

/-! ## Histories -/

structure Request where
  record : Doc
  reference : Doc
  /-- The state of the evaluation, but for the records consumed. -/
  context : List (Text × Doc)
  trustMode : Text
  keys : Keys

/-- The context, with the records consumed so far. -/
def Request.contextWith (q : Request) (consumed : List Doc) : Doc :=
  .obj ((text "consumed_records", .arr consumed) :: q.context.filter (·.1 ≠ text "consumed_records"))

/-- The record is of one use, and evaluates `VALID`. -/
def accepts (h : Host) (consumed : List Doc) (q : Request) : Bool :=
  match evaluateRecord h q.trustMode q.keys q.record q.reference (q.contextWith consumed) with
  | .ok e => e.result.isNone && dictGet q.record "one_use" = .bool true
  | .error _ => false

def consume (h : Host) (consumed : List Doc) (q : Request) : List Doc :=
  if accepts h consumed q then consumed ++ [q.record] else consumed

/-! ## What separates two records -/

/-- What the schema, the registry and RFC 8785 guarantee of signed records. -/
structure Sealed (h : Host) : Prop where
  schema : ∀ r t, h.schemaValid r = true → item r "record_type" = some (.str t) → (rolesOf t).isSome →
    (∀ k ∈ ["issuer", "issuer_key_id", "audience", "serial", "nonce", "scope"], ∃ u, item r k = some (.str u)) ∧
      item r "scope_binding_hash" = none
  registry : ∀ registry t pointers, Hashing.parseRegistry h.hashing h.registryBytes = .ok registry → (rolesOf t).isSome →
    Hashing.Excludes registry t pointers → ∀ p ∈ pointers, p ∈ [text "/content_hash", text "/signature"]
  /-- An object of members of one that is encoded is encoded. -/
  encoded : ∀ l l', (h.hashing.jcs (.obj l)).isSome → l' ⊆ l → (l'.map (·.1)).Nodup → (h.hashing.jcs (.obj l')).isSome

/-- The identities of a record are there. -/
structure Usable (h : Host) (r : Doc) : Prop where
  texts : ∀ k ∈ ["issuer", "issuer_key_id", "audience", "serial", "nonce", "content_hash"], ∃ t, item r k = some (.str t)
  unbound : item r "scope_binding_hash" = none
  scope : ∃ t, scopeBindingHash h r = .ok t

/-- The records differ in each of the three identities. -/
structure Apart (h : Host) (r s : Doc) : Prop where
  content_hash : dictGet r "content_hash" ≠ dictGet s "content_hash"
  serial : ["issuer", "issuer_key_id", "audience", "serial"].map (item r) ≠
    ["issuer", "issuer_key_id", "audience", "serial"].map (item s)
  nonce : ∃ a b, scopeBindingHash h r = .ok a ∧ scopeBindingHash h s = .ok b ∧
    (["issuer", "issuer_key_id", "audience", "nonce"].map (item r), a) ≠
      (["issuer", "issuer_key_id", "audience", "nonce"].map (item s), b)

section Separation

variable {h : Host} {r s : Doc}

theorem eq_texts {l : List Doc} (hl : ∀ v ∈ l, ∃ t, v = .str t) : h.eq (.arr l) (.arr l) = true := by
  rw [Host.eq, equal]
  induction l with
  | nil => rfl
  | cons v l ih =>
    obtain ⟨t, rfl⟩ := hl v (.head _)
    have hrest := ih fun v hv => hl v (.tail _ hv)
    rw [equalItems, hrest, Bool.and_true]
    exact equal_str.mpr rfl

/-- The fields of a record that has texts in them. -/
theorem fieldsOf_texts {fields : List String} (hr : ∀ k ∈ fields, ∃ t, item r k = some (.str t)) :
    ∃ l, fieldsOf r fields = some l ∧ ∀ v ∈ l, ∃ t, v = .str t := by
  induction fields with
  | nil => exact ⟨[], rfl, by simp⟩
  | cons k fields ih =>
    obtain ⟨t, ht⟩ := hr k (.head _)
    obtain ⟨l, hl, hs⟩ := ih fun k hk => hr k (.tail _ hk)
    refine ⟨.str t :: l, ?_, ?_⟩
    · rw [fieldsOf] at hl
      simp [fieldsOf, List.mapM_cons, ht, hl]
    · intro v hv
      cases hv with
      | head => exact ⟨t, rfl⟩
      | tail _ hv => exact hs v hv

theorem fieldsOf_congr {fields : List String} (he : fields.map (item r) = fields.map (item s)) : fieldsOf r fields = fieldsOf s fields := by
  induction fields with
  | nil => rfl
  | cons k fields ih =>
    rw [List.map_cons, List.map_cons, List.cons.injEq] at he
    have hrest := ih he.2
    rw [fieldsOf, fieldsOf] at hrest
    rw [fieldsOf, fieldsOf, List.mapM_cons, List.mapM_cons, he.1, hrest]

theorem Usable.fields (hr : Usable h r) (fields : List String)
    (hf : fields ⊆ ["issuer", "issuer_key_id", "audience", "serial", "nonce", "content_hash"]) :
    ∃ l, fieldsOf r fields = some l ∧ ∀ v ∈ l, ∃ t, v = .str t := fieldsOf_texts fun k hk => hr.texts k (hf hk)

/-- Records of other hashes are told to have other hashes. -/
theorem otherHash_true (hs : Usable h s) (hne : dictGet r "content_hash" ≠ dictGet s "content_hash") :
    otherHash h r s = .ok true := by
  obtain ⟨t, ht⟩ := hs.texts "content_hash" (by decide)
  have hd : dictGet s "content_hash" = .str t := by rw [dictGet, ht, Option.getD_some]
  rw [otherHash, getItem_of_item ht]
  have hf : h.eq (dictGet r "content_hash") (.str t) = false := by
    rw [Bool.eq_false_iff]
    intro he
    exact hne ((equal_str.mp he).trans hd.symm)
  simp only [bind, Except.bind, hf]
  rfl

/-- Without a conflict of serials the serials differ. -/
theorem serial_apart (hr : Usable h r) (hs : Usable h s) (hne : dictGet r "content_hash" ≠ dictGet s "content_hash")
    (hc : serialConflict h r s = .ok false) :
    ["issuer", "issuer_key_id", "audience", "serial"].map (item r) ≠ ["issuer", "issuer_key_id", "audience", "serial"].map (item s) := by
  intro he
  obtain ⟨l, hl, ht⟩ := hr.fields ["issuer", "issuer_key_id", "audience", "serial"] (by decide)
  have hsame : sameTuple h (consumptionIdentity r) (consumptionIdentity s) = true := by
    rw [consumptionIdentity, consumptionIdentity, ← fieldsOf_congr he, hl]
    exact eq_texts ht
  rw [serialConflict, if_pos hsame, otherHash_true hs hne] at hc
  cases hc

theorem nonceScope_usable (hr : Usable h r) {l : List Doc} {t : Text}
    (hl : fieldsOf r ["issuer", "issuer_key_id", "audience"] = some l) (ht : scopeBindingHash h r = .ok t) :
    nonceScope h r = some (l ++ [.str t]) := by
  have hn : dictGet r "scope_binding_hash" = .null := by rw [dictGet, hr.unbound, Option.getD_none]
  simp only [nonceScope, hl, hn, ht]

/-- Without a conflict of nonces the nonces, or the scopes, differ. -/
theorem nonce_apart (hr : Usable h r) (hs : Usable h s) (hne : dictGet r "content_hash" ≠ dictGet s "content_hash")
    (hc : nonceConflict h r s = .ok false) : ∃ a b, scopeBindingHash h r = .ok a ∧ scopeBindingHash h s = .ok b ∧
    (["issuer", "issuer_key_id", "audience", "nonce"].map (item r), a) ≠
      (["issuer", "issuer_key_id", "audience", "nonce"].map (item s), b) := by
  obtain ⟨a, ha⟩ := hr.scope
  obtain ⟨b, hb⟩ := hs.scope
  refine ⟨a, b, ha, hb, ?_⟩
  intro he
  obtain ⟨hfields, rfl⟩ := Prod.mk.inj he
  simp only [List.map_cons, List.map_nil, List.cons.injEq, and_true] at hfields
  obtain ⟨hi, hk, hu, hn⟩ := hfields
  obtain ⟨l, hl, ht⟩ := hr.fields ["issuer", "issuer_key_id", "audience"] (by decide)
  have hfs : fieldsOf s ["issuer", "issuer_key_id", "audience"] = some l := by
    rw [← fieldsOf_congr (r := r), hl]
    rw [List.map_cons, List.map_cons, List.map_cons, List.map_nil, hi, hk, hu]
    rfl
  have hscope := nonceScope_usable hr hl ha
  have hsame : sameTuple h (nonceScope h r) (nonceScope h s) = true := by
    rw [hscope, nonceScope_usable hs hfs hb]
    refine eq_texts fun v hv => ?_
    rcases List.mem_append.mp hv with hv | hv
    · exact ht v hv
    · exact ⟨a, List.mem_singleton.mp hv⟩
  obtain ⟨n, hnr⟩ := hr.texts "nonce" (by decide)
  have hns : item s "nonce" = some (.str n) := hn ▸ hnr
  have hnonce : h.eq (dictGet r "nonce") (.str n) = true := by
    rw [dictGet, hnr]
    exact equal_str.mpr rfl
  rw [nonceConflict, hsame, hscope, Option.isSome_some, Bool.and_self, if_pos rfl, getItem_of_item hns] at hc
  simp only [bind, Except.bind, hnonce, if_true, otherHash_true hs hne] at hc
  cases hc

end Separation

/-! ## What a valid evaluation has read -/

section Valid

variable {h : Host} {trustMode : Text} {keys : Keys} {record reference context : Doc}

theorem evaluate_valid {e : Evaluation} (he : evaluateRecord h trustMode keys record reference context = .ok e) (hv : e.result = none) :
    ∃ t digest, h.schemaValid record = true ∧ item record "record_type" = some (.str t) ∧ contentHash h t record = .ok digest ∧
      recordFaults h trustMode keys record reference context t digest = .ok [] := by
  rw [evaluateRecord] at he
  cases hs : h.schemaValid record with
  | false =>
    rw [hs] at he
    cases he
    cases evaluation_valid.mp hv
  | true =>
    rw [hs, Bool.not_true, if_neg Bool.false_ne_true, bind_ok] at he
    obtain ⟨x, hx, he⟩ := he
    rw [bind_ok] at he
    obtain ⟨t, ht, he⟩ := he
    have htype := asString_ok ht
    subst htype
    cases hc : contentHash h t record with
    | error err =>
      simp only [hc] at he
      cases err with
      | canonical code =>
        cases he
        cases evaluation_valid.mp hv
      | _ => cases he
    | ok digest =>
      simp only [hc, bind_ok] at he
      obtain ⟨faults, hf, he⟩ := he
      cases he
      have hnil := evaluation_valid.mp hv
      subst hnil
      exact ⟨t, digest, rfl, getItem_ok hx, hc, hf⟩

theorem audienceFaults_ok {t : Text} {faults : List Fault} (ha : audienceFaults h record context t = .ok faults) : (rolesOf t).isSome := by
  rw [audienceFaults] at ha
  cases hx : audienceOf t with
  | none =>
    rw [hx] at ha
    cases ha
  | some u =>
    obtain ⟨a, hfind, -⟩ := Option.map_eq_some_iff.mp hx
    have ht : text a.1 = t := by simpa using List.find?_some hfind
    have hall : ∀ a ∈ expectedAudience, (rolesOf (text a.1)).isSome := by decide
    rw [← ht]
    exact hall a (List.mem_of_find?_eq_some hfind)

theorem recordFaults_nil {t digest : Text} (hf : recordFaults h trustMode keys record reference context t digest = .ok []) :
    item record "content_hash" = some (.str digest) ∧ (rolesOf t).isSome ∧ consumptionFaults h record context = .ok [] ∧
      serialAndLocalStateFaults h record reference context t = .ok [] := by
  rw [recordFaults, bind_ok] at hf
  obtain ⟨contentHash, hc, hf⟩ := hf
  obtain ⟨keyed, -, hf⟩ := bind_ok.mp hf
  obtain ⟨bound, -, hf⟩ := bind_ok.mp hf
  obtain ⟨audience, ha, hf⟩ := bind_ok.mp hf
  obtain ⟨now, -, hf⟩ := bind_ok.mp hf
  obtain ⟨revoked, -, hf⟩ := bind_ok.mp hf
  obtain ⟨timed, -, hf⟩ := bind_ok.mp hf
  obtain ⟨prerequisites, -, hf⟩ := bind_ok.mp hf
  obtain ⟨scope, -, hf⟩ := bind_ok.mp hf
  obtain ⟨consumed, hconsumed, hf⟩ := bind_ok.mp hf
  obtain ⟨serial, hserial, hf⟩ := bind_ok.mp hf
  have hnil := pure_ok.mp hf
  simp only [List.append_eq_nil_iff, fault_nil, decide_eq_false_iff_not, not_not] at hnil
  obtain ⟨⟨hhash, hcn⟩, hsn⟩ : (contentHash = .str digest ∧ consumed = []) ∧ serial = [] := ⟨⟨hnil.1.1.1.1.1.1.1.1.1.1.1, hnil.1.2⟩, hnil.2⟩
  refine ⟨?_, audienceFaults_ok ha, hcn ▸ hconsumed, hsn ▸ hserial⟩
  rw [← hhash]
  exact getItem_ok hc

/-- No record consumed has the content hash. -/
theorem replayFaults_nil {contentHash : Doc} {l : List Doc} (hf : replayFaults h record contentHash l = .ok []) :
    ∀ c ∈ l, h.eq (dictGet c "content_hash") contentHash = false := by
  induction l with
  | nil => simp
  | cons value l ih =>
    rw [replayFaults, bind_ok] at hf
    obtain ⟨consumed, hv, hf⟩ := hf
    obtain ⟨rest, hr, hf⟩ := bind_ok.mp hf
    obtain ⟨hvalue, -⟩ := asObject_ok hv
    cases he : h.eq (dictGet consumed "content_hash") contentHash with
    | true =>
      simp only [he, if_true] at hf
      cases hf
    | false =>
      simp only [he, Bool.false_eq_true, if_false] at hf
      cases hf
      exact List.forall_mem_cons.mpr ⟨hvalue ▸ he, ih hr⟩

/-- No record consumed conflicts with this one. -/
theorem conflictFaults_nil {l : List Doc} (hf : conflictFaults h record l = .ok []) :
    ∀ c ∈ l, serialConflict h c record = .ok false ∧ nonceConflict h c record = .ok false := by
  induction l with
  | nil => simp
  | cons value l ih =>
    rw [conflictFaults, bind_ok] at hf
    obtain ⟨consumed, hv, hf⟩ := hf
    obtain ⟨serial, hs, hf⟩ := bind_ok.mp hf
    obtain ⟨nonce, hn, hf⟩ := bind_ok.mp hf
    obtain ⟨rest, hr, hf⟩ := bind_ok.mp hf
    obtain ⟨hvalue, -⟩ := asObject_ok hv
    have hnil := pure_ok.mp hf
    simp only [List.append_eq_nil_iff, fault_nil] at hnil
    obtain ⟨⟨rfl, rfl⟩, rfl⟩ := hnil
    exact List.forall_mem_cons.mpr ⟨⟨hvalue ▸ hs, hvalue ▸ hn⟩, ih hr⟩

/-- The members of these names, as far as the record has them. -/
def membersNamed (record : Doc) (names : List String) : List (Text × Doc) :=
  names.filterMap fun name => (item record name).map fun v => (text name, v)

theorem membersNamed_sublist (names : List String) : ((membersNamed record names).map (·.1)).Sublist (names.map text) := by
  induction names with
  | nil => exact .slnil
  | cons name names ih =>
    rw [membersNamed, List.filterMap_cons]
    cases hi : item record name with
    | none => exact ih.cons _
    | some v => exact ih.cons_cons _

theorem mem_membersNamed {names : List String} {m : Text × Doc} (hm : m ∈ membersNamed record names) :
    ∃ name ∈ names, m.1 = text name ∧ item record name = some m.2 := by
  obtain ⟨name, hn, ho⟩ := List.mem_filterMap.mp hm
  obtain ⟨v, hv, rfl⟩ := Option.map_eq_some_iff.mp ho
  exact ⟨name, hn, rfl, hv⟩

/-- The names a scope binding hash is of: each once, and none that a content hash leaves out. -/
theorem scope_names : ∀ a ∈ fieldsByType, (("record_type" :: "scope" :: a.2).map text).Nodup ∧
    ∀ name ∈ "record_type" :: "scope" :: a.2, text name ∉ [text "/content_hash", text "/signature"].map Hashing.referred := by
  decide

theorem fieldsByType_roles {t : Text} (ht : (rolesOf t).isSome) : ∃ a ∈ fieldsByType, fieldsByType.find? (fun a => text a.1 = t) = some a := by
  have hall : ∀ a ∈ allowedRoles, (fieldsByType.find? fun b => text b.1 = text a.1).isSome := by decide
  obtain ⟨roles, hr⟩ := Option.isSome_iff_exists.mp ht
  obtain ⟨a, hfind, -⟩ := Option.map_eq_some_iff.mp hr
  have ha : text a.1 = t := by simpa using List.find?_some hfind
  have hsome := hall a (List.mem_of_find?_eq_some hfind)
  rw [ha] at hsome
  obtain ⟨b, hb⟩ := Option.isSome_iff_exists.mp hsome
  exact ⟨b, List.mem_of_find?_eq_some hb, hb⟩

/-- The members the scope binding hash is of are among those the content hash is of, so RFC 8785
encodes them. -/
theorem scope_usable (hsealed : Sealed h) {t digest scope : Text} (ht : item record "record_type" = some (.str t))
    (hroles : (rolesOf t).isSome) (hc : contentHash h t record = .ok digest) (hs : item record "scope" = some (.str scope)) :
    ∃ u, scopeBindingHash h record = .ok u := by
  obtain ⟨a, ha, hfind⟩ := fieldsByType_roles hroles
  obtain ⟨hnodup, hkept⟩ := scope_names a ha
  have hmembers : (text "record_type", .str t) :: (text "scope", .str scope) :: membersNamed record a.2 =
      membersNamed record ("record_type" :: "scope" :: a.2) := by
    simp only [membersNamed, List.filterMap_cons, ht, hs, Option.map_some]
  have hjcs : (h.hashing.jcs (.obj (membersNamed record ("record_type" :: "scope" :: a.2)))).isSome := by
    cases hp : Hashing.canonicalPreimage h.hashing h.registryBytes t record with
    | error e =>
      rw [contentHash, hp] at hc
      cases hc
    | ok b =>
      obtain ⟨registry, l, e, x, pointers, m, c, hreg, hl, he, het, hx, hv, htuple, rfl, -, hcanonical, -⟩ := Hashing.preimage_ok hp
      have hpointers := hsealed.registry registry t pointers hreg hroles
        ⟨⟨l, e, x, hl, he, het, hx, htuple⟩, Hashing.registered_of_ok hv htuple⟩
      refine hsealed.encoded (Hashing.strip pointers m) _ (by rw [hcanonical]; rfl) ?_ ?_
      · intro n hn
        obtain ⟨name, hname, hn₁, hitem⟩ := mem_membersNamed hn
        obtain ⟨l₁, l₂, rfl, -⟩ := List.lookup_eq_some_iff.mp hitem
        refine List.mem_filter.mpr ⟨?_, ?_⟩
        · rw [← hn₁]
          simp
        · refine decide_eq_true fun hin => hkept name hname ?_
          obtain ⟨p, hp, hpn⟩ := List.mem_map.mp hin
          exact List.mem_map.mpr ⟨p, hpointers p hp, hpn.trans hn₁⟩
      · exact (membersNamed_sublist _).nodup hnodup
  obtain ⟨canonical, hcanonical⟩ := Option.isSome_iff_exists.mp hjcs
  rw [← hmembers] at hcanonical
  rw [scopeBindingHash, getItem_of_item ht]
  simp only [bind, Except.bind, asString, getItem_of_item hs, hfind]
  rw [membersNamed] at hcanonical
  simp only [hcanonical]
  exact ⟨_, rfl⟩

end Valid

/-! ## The run -/

section Run

variable {h : Host} (hsealed : Sealed h)

include hsealed

/-- A record accepted is usable, and conflicts with none of those consumed before it. -/
theorem accepts_usable {consumed : List Doc} {q : Request} (ha : accepts h consumed q = true) : Usable h q.record ∧
    ∀ c ∈ consumed, dictGet c "content_hash" ≠ dictGet q.record "content_hash" ∧
      serialConflict h c q.record = .ok false ∧ nonceConflict h c q.record = .ok false := by
  rw [accepts] at ha
  cases he : evaluateRecord h q.trustMode q.keys q.record q.reference (q.contextWith consumed) with
  | error e =>
    rw [he] at ha
    cases ha
  | ok e =>
    simp only [he, Bool.and_eq_true, decide_eq_true_eq, Option.isNone_iff_eq_none] at ha
    obtain ⟨hv, hone⟩ := ha
    obtain ⟨t, digest, hschema, ht, hc, hf⟩ := evaluate_valid he hv
    obtain ⟨hhash, hroles, hcn, hsn⟩ := recordFaults_nil hf
    obtain ⟨htexts, hunbound⟩ := hsealed.schema q.record t hschema ht hroles
    obtain ⟨scope, hs⟩ := htexts "scope" (by decide)
    have husable : Usable h q.record := by
      refine ⟨?_, hunbound, scope_usable hsealed ht hroles hc hs⟩
      intro k hk
      by_cases hkc : k = "content_hash"
      · exact ⟨digest, hkc ▸ hhash⟩
      · exact htexts k (by revert hk hkc k; decide)
    -- the records the checks read are those consumed
    have hrecords : getOr (q.contextWith consumed) "consumed_records" (.arr []) = .arr consumed := by
      rw [getOr, Request.contextWith, item, List.lookup_cons_self, Option.getD_some]
    refine ⟨husable, fun c hcm => ?_⟩
    have hreplay : h.eq (dictGet c "content_hash") (.str digest) = false := by
      rw [consumptionFaults, bind_ok] at hcn
      obtain ⟨oneUse, ho, hcn⟩ := hcn
      rw [getItem_get ho |>.symm.trans hone] at hcn
      simp only [ne_eq, not_true_eq_false, if_false, getItem_of_item hhash, hrecords] at hcn
      obtain ⟨contentHash, hch, hcn⟩ := bind_ok.mp hcn
      cases hch
      rw [bind_ok] at hcn
      obtain ⟨hashes, -, hcn⟩ := hcn
      rw [bind_ok] at hcn
      obtain ⟨records, hl, hcn⟩ := hcn
      cases hl
      rw [bind_ok] at hcn
      obtain ⟨replayed, hr, hcn⟩ := hcn
      obtain ⟨-, rfl⟩ := List.append_eq_nil_iff.mp (pure_ok.mp hcn)
      exact replayFaults_nil hr c hcm
    have hconflict : serialConflict h c q.record = .ok false ∧ nonceConflict h c q.record = .ok false := by
      rw [serialAndLocalStateFaults, bind_ok] at hsn
      obtain ⟨sequence, -, hsn⟩ := hsn
      rw [hrecords, bind_ok] at hsn
      obtain ⟨records, hl, hsn⟩ := hsn
      cases hl
      rw [bind_ok] at hsn
      obtain ⟨conflicts, hr, hsn⟩ := hsn
      obtain ⟨-, rfl⟩ := List.append_eq_nil_iff.mp (pure_ok.mp hsn)
      exact conflictFaults_nil hr c hcm
    refine ⟨?_, hconflict⟩
    intro heq
    have hsame : h.eq (.str digest) (.str digest) = true := equal_str.mpr rfl
    rw [heq, dictGet, hhash, Option.getD_some, hsame] at hreplay
    cases hreplay

/-- The records consumed in a history stay apart, pairwise. -/
theorem foldl_apart (before : List Doc) (requests : List Request) (admitted : List Doc) (hu : ∀ r ∈ admitted, Usable h r)
    (hp : admitted.Pairwise (Apart h)) : ∃ admitted', requests.foldl (consume h) (before ++ admitted) = before ++ admitted' ∧
      admitted'.Pairwise (Apart h) := by
  induction requests generalizing admitted with
  | nil => exact ⟨admitted, rfl, hp⟩
  | cons q requests ih =>
    rw [List.foldl_cons, consume]
    cases ha : accepts h (before ++ admitted) q with
    | false =>
      rw [if_neg Bool.false_ne_true]
      exact ih admitted hu hp
    | true =>
      obtain ⟨hq, hapart⟩ := accepts_usable hsealed ha
      rw [if_pos rfl, List.append_assoc]
      refine ih _ ?_ ?_
      · intro r hr
        rcases List.mem_append.mp hr with hr | hr
        · exact hu r hr
        · exact List.mem_singleton.mp hr ▸ hq
      · refine List.pairwise_append.mpr ⟨hp, List.pairwise_singleton _ _, ?_⟩
        intro r hr s hs
        rw [List.mem_singleton.mp hs]
        obtain ⟨hne, hserial, hnonce⟩ := hapart r (List.mem_append_right _ hr)
        exact ⟨hne, serial_apart (hu r hr) hq hne hserial, nonce_apart (hu r hr) hq hne hnonce⟩

/-- Whatever is evaluated, in whatever order and state, the records consumed are pairwise apart. -/
theorem consumed_apart (before : List Doc) (requests : List Request) :
    ∃ admitted, requests.foldl (consume h) before = before ++ admitted ∧ admitted.Pairwise (Apart h) := by
  obtain ⟨admitted, he, hp⟩ := foldl_apart hsealed before requests [] (by simp) .nil
  rw [List.append_nil] at he
  exact ⟨admitted, he, hp⟩

end Run

/-! ## A receipt evaluated twice -/

section Receipt

/-- The schema of a gate receipt, as far as the results need it. -/
def identified (r : Doc) : Bool :=
  (["issuer", "issuer_key_id", "audience", "serial", "nonce", "scope"].all fun k =>
    match item r k with
    | some (.str _) => true
    | _ => false) && (item r "scope_binding_hash").isNone && dictGet r "record_type" ≠ str "RevocationRecord"

/-- SHA-256 on the genesis, the receipt and its scope. -/
def receiptHost : Host where
  hashing := ⟨fun t => t.all (· < 0x80), fun v => some v.bytes, fun _ => 0⟩
  registryBytes := Hashing.smallRegistry.bytes
  sha256 b :=
    if (b.drop 22).head? = some 0x52 then 0xb861b7545e39caf552c29908ec2789ab4da35b40b774abc41067daabb708de5e#256
    else if (b.drop 22).head? = some 0x47 then 0x2dd59af579fa66e578df58c17d24d0363b88f44450bac6d2c16cc1cb24083f30#256
    else 0x688c2abed501c868107151f4db8b2c54bbf507185d2fca7036451ebb3e8413b4#256
  schemaValid := identified
  verify _ _ _ := true
  schema_revocation := by
    intro r hr ht
    simp [identified, ht] at hr

theorem receipt_parse : Hashing.parseRegistry receiptHost.hashing receiptHost.registryBytes = .ok Hashing.smallRegistry := by
  have hn : ∀ g : Hashing.Host, g.nfc = Hashing.smallHost.nfc →
      Hashing.parseRegistry g Hashing.smallRegistry.bytes = .ok Hashing.smallRegistry := by
    intro g hg
    rw [← Hashing.small_parse, Hashing.parseRegistry, Hashing.parseRegistry, hg]
  exact hn _ rfl

theorem receipt_sealed : Sealed receiptHost where
  schema := by
    intro r t hr _ _
    simp only [receiptHost, identified, Bool.and_eq_true, Option.isNone_iff_eq_none] at hr
    refine ⟨?_, hr.1.2⟩
    intro k hk
    have hs := List.all_eq_true.mp hr.1.1 k hk
    cases hi : item r k with
    | none => simp [hi] at hs
    | some v =>
      cases v with
      | str u => exact ⟨u, rfl⟩
      | _ => simp [hi] at hs
  registry := by
    intro registry t pointers hp _ hx p hpm
    have hregistry := Except.ok.inj (receipt_parse.symm.trans hp)
    subst hregistry
    obtain ⟨⟨l, e, x, hl, he, -, hxe, htuple⟩, -⟩ := hx
    cases Hashing.small_entries.symm.trans hl
    have hentries : ∀ e ∈ [Hashing.gateEntry, Hashing.bodyEntry], item e "excluded_json_pointers" =
        some (strs ["/content_hash", "/signature"]) ∨ item e "excluded_json_pointers" = some (.arr []) := by decide
    rcases hentries e he with hxs | hxs
    · cases hxs.symm.trans hxe
      have hps := Except.ok.inj htuple
      have hm : Value.str p ∈ ["/content_hash", "/signature"].map str := hps ▸ List.mem_map_of_mem hpm
      obtain ⟨k, hk, hkp⟩ := List.mem_map.mp hm
      rw [← Value.str.inj hkp]
      have ht := List.mem_map_of_mem (f := text) hk
      rwa [List.map_cons, List.map_cons, List.map_nil] at ht
    · cases hxs.symm.trans hxe
      have hps := Except.ok.inj htuple
      rw [List.map_eq_nil_iff.mp hps.symm] at hpm
      cases hpm
  encoded := fun _ _ _ _ _ => rfl

/-- The gate receipt of the vectors. -/
def receiptMembers : List (String × Doc) :=
  [("schema_version", str "gate-receipt/v1"), ("record_type", str "GateReceipt"),
    ("record_id", str "00000000-0000-4000-8000-000000000020"), ("issuer", str "issuer:rfc8032-test-vector-1"),
    ("issuer_key_id", str "key:ed25519:21fe31dfa154a261626bf854046fd2271b7bed4b6abe45aa58877ef47f9721b9"),
    ("signature_algorithm", str "Ed25519"), ("pack_bindings", packBindings),
    ("implementation_bindings", implementationBindings), ("issued_at", str "2030-01-01T00:00:00Z"),
    ("not_before", str "2030-01-01T00:00:00Z"), ("expires_at", str "2030-01-01T00:30:00Z"),
    ("revocation_checkpoint", genesisCheckpoint), ("production_authority", str "NONE"), ("issuer_role", str "PACK_REVIEWER"),
    ("audience", str "hybrid-discovery:bootstrap-gate:v1"), ("scope", str "IMPLEMENTATION_GATE_ONLY"),
    ("serial", str "TEST-GATE-0001"), ("nonce", str "BBBBBBBBBBBBBBBBBBBBBBBBBBBBBBBBBBBBBBBBBBB"), ("one_use", .bool true),
    ("consumed_before", str "ATOMIC_LEDGER_COMMIT_BEFORE_GATE_USE"), ("gate_kind", str "DISCOVERY_SECURITY_ACCEPTED"),
    ("gate_result", str "PASS"),
    ("prerequisite_receipt_hashes", strs ["d218581e37f7afe13a3650568c1b9ff928f32f5ec30b2e8422bd59cfcd82e980"]),
    ("criteria_evidence_hashes", strs ["7777777777777777777777777777777777777777777777777777777777777777"]),
    ("declared_use_semantics", str "SINGLE_USE"),
    ("content_hash", str "2dd59af579fa66e578df58c17d24d0363b88f44450bac6d2c16cc1cb24083f30"),
    ("signature", str "NbxapqwDb7cN3vLP-lIYpfSdxRKkBeQOts1hmdVT2rSx2OlqZKizx7T9JrYr8r8xKJ9ZMxv2S7poma7pN3SYDg")]

def gateReceipt : Doc := record receiptMembers

theorem receipt_item {k : String} {v : Doc} (i : Nat) (hi : receiptMembers[i]? = some (k, v)) : item gateReceipt k = some v :=
  item_record (by decide) hi

def receiptKey : VerifierKey where
  publicKey := []
  issuers := [text "issuer:rfc8032-test-vector-1"]
  roles := [text "PACK_REVIEWER"]
  audiences := [text "hybrid-discovery:bootstrap-gate:v1"]
  validFrom := 0
  validUntil := 100000000000000000
  active := false
  testOnly := true

/-- The receipt, with the empty ledger of revocations. -/
def receiptRequest : Request where
  record := gateReceipt
  reference := gateReceipt
  context := [(text "revocation_state", record [("required_revocation_checkpoint", genesisCheckpoint),
    ("signed_revocation_records", .arr [])])]
  trustMode := testTrustMode
  keys := [(text "key:ed25519:21fe31dfa154a261626bf854046fd2271b7bed4b6abe45aa58877ef47f9721b9", receiptKey)]

theorem receipt_hash : contentHash receiptHost (text "GateReceipt") gateReceipt =
    .ok (text (hex 0x2dd59af579fa66e578df58c17d24d0363b88f44450bac6d2c16cc1cb24083f30#256)) := by
  have h : ((Hashing.canonicalPreimage receiptHost.hashing receiptHost.registryBytes (text "GateReceipt") gateReceipt).toOption.map
      receiptHost.sha256) = some 0x2dd59af579fa66e578df58c17d24d0363b88f44450bac6d2c16cc1cb24083f30#256 := by
    unfold Hashing.canonicalPreimage
    rw [receipt_parse]
    simp only [gateReceipt, receiptMembers, packBindings, implementationBindings, genesisCheckpoint, str, strs, record, List.map]
    repeat rewrite [text_ofList]
    decide
  obtain ⟨b, hb, hs⟩ := Option.map_eq_some_iff.mp h
  rw [contentHash_ok (toOption_ok.mp hb), hs]

theorem receipt_checks : consumptionFaults receiptHost gateReceipt (receiptRequest.contextWith []) = .ok [] ∧
    bindingFaults receiptHost gateReceipt gateReceipt (receiptRequest.contextWith []) = .ok [] ∧
    audienceFaults receiptHost gateReceipt (receiptRequest.contextWith []) (text "GateReceipt") = .ok [] ∧
    prerequisiteFaults receiptHost testTrustMode receiptRequest.keys gateReceipt gateReceipt (receiptRequest.contextWith [])
      (text "GateReceipt") 64029052800000000 = .ok [] ∧
    scopeFaults receiptHost testTrustMode receiptRequest.keys gateReceipt gateReceipt (receiptRequest.contextWith [])
      (text "GateReceipt") 64029052800000000 = .ok [] ∧
    serialAndLocalStateFaults receiptHost gateReceipt gateReceipt (receiptRequest.contextWith []) (text "GateReceipt") = .ok [] := by
  rw [← toOption_ok, ← toOption_ok, ← toOption_ok, ← toOption_ok, ← toOption_ok, ← toOption_ok]
  simp only [gateReceipt, receiptMembers, packBindings, implementationBindings, genesisCheckpoint, str, strs, record, List.map,
    receiptRequest, Request.contextWith]
  repeat rewrite [text_ofList]
  decide

theorem receipt_ordered : issuanceOrderIsValid gateReceipt = .ok true := by
  obtain ⟨hi, -, he⟩ := new_year
  rw [issuanceOrderIsValid]
  refine bind_ok.mpr ⟨_, getItem_of_item (receipt_item 8 rfl), bind_ok.mpr ⟨_, hi, ?_⟩⟩
  refine bind_ok.mpr ⟨_, getItem_of_item (receipt_item 9 rfl), bind_ok.mpr ⟨_, hi, ?_⟩⟩
  exact bind_ok.mpr ⟨_, getItem_of_item (receipt_item 10 rfl), bind_ok.mpr ⟨_, he, rfl⟩⟩

theorem receipt_signature : signatureIsValid receiptHost gateReceipt [] = .ok true := by
  rw [← toOption_ok]
  simp only [signatureIsValid, getItem_of_item (receipt_item 25 rfl), getItem_of_item (receipt_item 26 rfl), str, asString, bind, Except.bind]
  repeat rewrite [text_ofList]
  decide

theorem anyOf_false {x : Except PyError Bool} {l : List (Except PyError Bool)} (hx : x = .ok false) (hl : anyOf l = .ok false) :
    anyOf (x :: l) = .ok false := by
  rw [anyOf, hx]
  exact hl

theorem receipt_time : clockAndTimeFaults receiptHost gateReceipt (receiptRequest.contextWith []) (text "GateReceipt") 64029052800000000 = .ok [] ∧
    validationTime gateReceipt (receiptRequest.contextWith []) = .ok 64029052800000000 := by
  obtain ⟨hi, -, he⟩ := new_year
  constructor
  · rw [clockAndTimeFaults, if_neg (by decide)]
    refine bind_ok.mpr ⟨_, rfl, bind_ok.mpr ⟨_, getItem_of_item (receipt_item 9 rfl), bind_ok.mpr ⟨_, hi, ?_⟩⟩⟩
    exact bind_ok.mpr ⟨_, getItem_of_item (receipt_item 10 rfl), bind_ok.mpr ⟨_, he, rfl⟩⟩
  · have hd : getOr (receiptRequest.contextWith []) "validation_time" (str "2030-01-01T00:00:00Z") = str "2030-01-01T00:00:00Z" := by
      decide
    rw [validationTime]
    refine bind_ok.mpr ⟨_, getItem_of_item (receipt_item 9 rfl), ?_⟩
    rw [hd]
    exact hi

theorem receipt_key : keyFaults receiptHost testTrustMode receiptRequest.keys gateReceipt gateReceipt (text "GateReceipt") = .ok [] := by
  have hk : receiptRequest.keys.lookup (text "key:ed25519:21fe31dfa154a261626bf854046fd2271b7bed4b6abe45aa58877ef47f9721b9") = some receiptKey :=
    List.lookup_cons_self
  have hroles : rolesOf (text "GateReceipt") = some [text "PACK_REVIEWER"] := by decide
  rw [keyFaults]
  refine bind_ok.mpr ⟨_, getItem_of_item (receipt_item 4 rfl), bind_ok.mpr ⟨_, rfl, ?_⟩⟩
  simp only [hk, hroles]
  refine bind_ok.mpr ⟨_, getItem_of_item (receipt_item 13 rfl), bind_ok.mpr ⟨_, rfl, ?_⟩⟩
  refine bind_ok.mpr ⟨_, getItem_of_item (receipt_item 8 rfl), bind_ok.mpr ⟨_, new_year.1, ?_⟩⟩
  refine bind_ok.mpr ⟨false, ?_, bind_ok.mpr ⟨_, receipt_signature, ?_⟩⟩
  · refine anyOf_false (by simp) (anyOf_false (by simp [receiptKey]) (anyOf_false ?_ (anyOf_false ?_ (anyOf_false ?_ ?_))))
    · exact bind_ok.mpr ⟨_, getItem_of_item (receipt_item 3 rfl), bind_ok.mpr ⟨true, by simp [inSet, receiptKey, str], rfl⟩⟩
    · refine bind_ok.mpr ⟨_, getItem_of_item (receipt_item 3 rfl), bind_ok.mpr ⟨_, getItem_of_item (receipt_item 3 rfl), ?_⟩⟩
      rw [show receiptHost.eq (str "issuer:rfc8032-test-vector-1") (str "issuer:rfc8032-test-vector-1") = true from equal_str.mpr rfl]
      rfl
    · exact bind_ok.mpr ⟨_, getItem_of_item (receipt_item 14 rfl), bind_ok.mpr ⟨true, by simp [inSet, receiptKey, str], rfl⟩⟩
    · exact anyOf_false (by decide) (anyOf_false (bind_ok.mpr ⟨_, receipt_ordered, rfl⟩) rfl)
  · decide

theorem receipt_state : ∃ s, ledgerState receiptHost gateReceipt (receiptRequest.contextWith []) = .ok (some s) ∧ s.records = [] ∧
    s.head = .str (genesisHash receiptHost s.ledgerId) := by
  have hg : str "b861b7545e39caf552c29908ec2789ab4da35b40b774abc41067daabb708de5e" =
      .str (genesisHash receiptHost (text "00000000-0000-4000-8000-000000000011")) := by
    rw [genesisHash, str, hex]
    rewrite [text_ofList, text_ofList]
    decide
  have h : (ledgerState receiptHost gateReceipt (receiptRequest.contextWith [])).toOption.map
      (·.map fun s => (s.ledgerId, s.head, s.records)) = some (some (text "00000000-0000-4000-8000-000000000011",
        str "b861b7545e39caf552c29908ec2789ab4da35b40b774abc41067daabb708de5e", [])) := by
    simp only [gateReceipt, receiptMembers, packBindings, implementationBindings, genesisCheckpoint, str, strs, record, List.map,
      receiptRequest, Request.contextWith]
    repeat rewrite [text_ofList]
    decide
  obtain ⟨o, ho, hs⟩ := Option.map_eq_some_iff.mp h
  obtain ⟨s, rfl, htriple⟩ := Option.map_eq_some_iff.mp hs
  obtain ⟨hl, hpair⟩ := Prod.mk.inj htriple
  obtain ⟨hh, hr⟩ := Prod.mk.inj hpair
  exact ⟨s, toOption_ok.mp ho, hr, by rw [hh, hl, hg]⟩

theorem receipt_unrevoked :
    isRevoked receiptHost testTrustMode receiptRequest.keys gateReceipt (receiptRequest.contextWith []) 64029052800000000 = .ok (false, true) := by
  obtain ⟨s, hs, hr, hh⟩ := receipt_state
  exact isRevoked_iff.mpr ⟨s, _, hs, hh, by rw [hr, followLedger]⟩

/-- The receipt evaluates `VALID`. -/
theorem receipt_accepted : accepts receiptHost [] receiptRequest = true := by
  obtain ⟨hconsumption, hbinding, haudience, hprerequisite, hscope, hserial⟩ := receipt_checks
  have hstore : getOr (receiptRequest.contextWith []) "consumption_store_available" (.bool true) = .bool true := by decide
  have hdigest : str "2dd59af579fa66e578df58c17d24d0363b88f44450bac6d2c16cc1cb24083f30" =
      .str (text (hex 0x2dd59af579fa66e578df58c17d24d0363b88f44450bac6d2c16cc1cb24083f30#256)) := by
    rw [str, hex]
    rewrite [text_ofList, text_ofList]
    decide
  have hfaults : recordFaults receiptHost testTrustMode receiptRequest.keys gateReceipt gateReceipt (receiptRequest.contextWith [])
      (text "GateReceipt") (text (hex 0x2dd59af579fa66e578df58c17d24d0363b88f44450bac6d2c16cc1cb24083f30#256)) = .ok [] := by
    rw [recordFaults, hstore]
    refine bind_ok.mpr ⟨_, getItem_of_item (receipt_item 25 rfl), bind_ok.mpr ⟨_, receipt_key, bind_ok.mpr ⟨_, hbinding, ?_⟩⟩⟩
    refine bind_ok.mpr ⟨_, haudience, bind_ok.mpr ⟨_, receipt_time.2, bind_ok.mpr ⟨_, receipt_unrevoked, ?_⟩⟩⟩
    refine bind_ok.mpr ⟨_, receipt_time.1, bind_ok.mpr ⟨_, hprerequisite, bind_ok.mpr ⟨_, hscope, ?_⟩⟩⟩
    refine bind_ok.mpr ⟨_, hconsumption, bind_ok.mpr ⟨_, hserial, ?_⟩⟩
    rw [hdigest]
    simp [fault, pure, Except.pure]
  have hschema : receiptHost.schemaValid gateReceipt = true := by
    have ht : dictGet gateReceipt "record_type" = str "GateReceipt" := by rw [dictGet, receipt_item 1 rfl, Option.getD_some]
    have hu : item gateReceipt "scope_binding_hash" = none := by decide
    have hne : str "GateReceipt" ≠ str "RevocationRecord" := by decide
    simp only [receiptHost, identified, List.all_cons, List.all_nil, receipt_item 3 rfl, receipt_item 4 rfl, receipt_item 14 rfl,
      receipt_item 15 rfl, receipt_item 16 rfl, receipt_item 17 rfl, str, hu, ht, Option.isNone_none, Bool.and_self, Bool.true_and]
    exact decide_eq_true hne
  have heval : evaluateRecord receiptHost testTrustMode receiptRequest.keys gateReceipt gateReceipt (receiptRequest.contextWith []) =
      .ok (evaluation []) := by
    rw [evaluateRecord, hschema, Bool.not_true, if_neg Bool.false_ne_true]
    refine bind_ok.mpr ⟨_, getItem_of_item (receipt_item 1 rfl), bind_ok.mpr ⟨_, rfl, ?_⟩⟩
    rw [receipt_hash]
    exact bind_ok.mpr ⟨_, hfaults, rfl⟩
  have hone : dictGet gateReceipt "one_use" = .bool true := by rw [dictGet, receipt_item 18 rfl, Option.getD_some]
  rw [accepts, show receiptRequest.trustMode = testTrustMode from rfl, show receiptRequest.record = gateReceipt from rfl,
    show receiptRequest.reference = gateReceipt from rfl, heval]
  simp only [evaluation_valid.mpr rfl, hone, Option.isNone_none, decide_true, Bool.and_self]

theorem consumed_apart_receipt : [receiptRequest].foldl (consume receiptHost) [] = [gateReceipt] ∧
    ∃ admitted, [receiptRequest, receiptRequest].foldl (consume receiptHost) [] = [] ++ admitted ∧ admitted.Pairwise (Apart receiptHost) := by
  refine ⟨?_, consumed_apart receipt_sealed [] [receiptRequest, receiptRequest]⟩
  rw [List.foldl_cons, consume, receipt_accepted]
  rfl

end Receipt

end BettingHelper.Authorization
