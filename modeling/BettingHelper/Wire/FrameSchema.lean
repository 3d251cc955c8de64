/-
  BettingHelper.Wire.FrameSchema — contracts/offline_slice/v1/frame.schema.json, and the
  validators of a frame: `offline_protocol.validate_frame` and `validateOfflineFrame` of
  extension/src/offline/protocol.ts.

  jsonschema looks for a pattern with `re.search`, whose `$` also stands before a final
  newline; Ajv uses a RegExp, whose `$` does not. What each side's validator takes for a
  raw observation is a parameter.

  Proved:
  - `envelope_toJs`: Ajv accepts what jsonschema does of a frame when no text outside the
    observations ends in a newline, and the observations are accepted.
  - `validators_alike_iff`: when the two sides accept alike.
-/

import Mathlib
import BettingHelper.Extension.JsText
import BettingHelper.Lib.JsonDict

namespace BettingHelper.Wire

open BettingHelper.Lib.Json BettingHelper.Extension

/-! ## Patterns -/

inductive Dialect where
  /-- `re.search` -/
  | python
  /-- `new RegExp(pattern, "u").test` -/
  | ecmaScript

/-- The text matches `^x$`, where `core` is what `x` matches. -/
def Dialect.anchored (d : Dialect) (core : Text → Bool) (t : Text) : Bool :=
  core t || match d with
    | .python => t.getLast? = some 0x0a && core t.dropLast
    | .ecmaScript => false

def isHex (c : Nat) : Bool := isDigit c || (0x61 ≤ c && c ≤ 0x66)

def isNonceDigit (c : Nat) : Bool := isDigit c || (0x41 ≤ c && c ≤ 0x5a) || (0x61 ≤ c && c ≤ 0x7a) || c = '_'.toNat || c = '-'.toNat

/-- `[0-9a-f]{8}-[0-9a-f]{4}-4[0-9a-f]{3}-[89ab][0-9a-f]{3}-[0-9a-f]{12}` -/
def uuid4 (t : Text) : Bool :=
  t.length = 36 && t.zipIdx.all fun (c, i) =>
    if i ∈ [8, 13, 18, 23] then c = '-'.toNat
    else if i = 14 then c = '4'.toNat
    else if i = 19 then c ∈ ['8', '9', 'a', 'b'].map Char.toNat
    else isHex c

/-- `[A-Za-z0-9_-]{43}` -/
def nonce43 (t : Text) : Bool := t.length = 43 && t.all isNonceDigit

/-- `[0-9a-f]{64}` -/
def hex64 (t : Text) : Bool := t.length = 64 && t.all isHex

/-- `[1-9][0-9]*` -/
def positive (t : Text) : Bool := (t.head?.any fun c => isDigit c && c ≠ '0'.toNat) && t.all isDigit

/-- `0|[1-9][0-9]*` -/
def unsigned (t : Text) : Bool := t = ['0'.toNat] || positive t

/-! ## The schema -/

/-- What a validator looks at in a value. -/
class View (α : Type) where
  string : α → Option Text
  array : α → Option (List α)
  object : α → Option (List (Text × α))

section Schema

variable {α κ : Type} [View α]

def members (v : α) : List (Text × α) := (View.object v).getD []

/-- An object of these properties: each is required, and there is no other. -/
def closed (holds : κ → α → Bool) (fields : List (String × κ)) (v : α) : Bool :=
  (View.object v).any fun l =>
    (l.all fun m => (fields.find? (text ·.1 = m.1)).any (holds ·.2 m.2)) && fields.all fun f => l.any (·.1 = text f.1)

inductive Check where
  | pattern (core : Text → Bool)
  | const (s : String)
  | enum (l : List String)
  /-- An array of 1 to 32 raw observations. -/
  | observations

def Check.holds (d : Dialect) (raw : α → Bool) : Check → α → Bool
  | .pattern core, v => (View.string v).any (d.anchored core)
  | .const s, v => (View.string v).any (· = text s)
  | .enum l, v => (View.string v).any fun t => l.any (text · = t)
  | .observations, v => (View.array v).any fun l => 1 ≤ l.length && l.length ≤ 32 && l.all raw

inductive Part where
  | check (c : Check)
  | body (fields : List (String × Check))

def Part.holds (d : Dialect) (raw : α → Bool) : Part → α → Bool
  | .check c, v => c.holds d raw v
  | .body fields, v => closed (Check.holds d raw) fields v

end Schema

def uuid : Check := .pattern uuid4

def nonce : Check := .pattern nonce43

def helloBody : List (String × Check) := [("run_id", uuid), ("client_nonce", nonce)]

/-- WELCOME, READY and READY_ACK. -/
def noncesBody : List (String × Check) := [("run_id", uuid), ("client_nonce", nonce), ("server_nonce", nonce)]

/-- What BATCH, ACK and NACK begin with. -/
def batchIdentity : List (String × Check) :=
  [("batch_id", uuid), ("run_id", uuid), ("browser_run_id", uuid), ("producer_id", uuid), ("stream_id", uuid),
    ("generation", .pattern unsigned)]

def batchBody : List (String × Check) :=
  batchIdentity ++ [("first_sequence", .pattern positive), ("last_sequence", .pattern positive), ("observations", .observations)]

def ackBody : List (String × Check) :=
  batchIdentity ++ [("highest_contiguous_sequence", .pattern unsigned), ("cursor_hash", .pattern hex64)]

def nackBody : List (String × Check) :=
  batchIdentity ++ [("code", .enum ["INVALID_INPUT", "GAP", "CONFLICT", "CLOSED_GENERATION", "CAPACITY", "IDENTITY_MISMATCH",
    "STORAGE_FAILED"])]

/-- PING and PONG. -/
def pingBody : List (String × Check) := [("nonce", nonce), ("monotonic_us", .pattern unsigned)]

def stopBody : List (String × Check) :=
  [("run_id", uuid), ("reason", .enum ["SCENARIO_COMPLETE", "MANUAL_OFFLINE_STOP", "SAFETY_STOP"])]

structure Branch where
  direction : String
  messageType : String
  body : List (String × Check)

def branches : List Branch :=
  [⟨"CLIENT_TO_BACKEND", "HELLO", helloBody⟩, ⟨"BACKEND_TO_CLIENT", "WELCOME", noncesBody⟩, ⟨"CLIENT_TO_BACKEND", "READY", noncesBody⟩,
    ⟨"BACKEND_TO_CLIENT", "READY_ACK", noncesBody⟩, ⟨"CLIENT_TO_BACKEND", "BATCH", batchBody⟩, ⟨"BACKEND_TO_CLIENT", "ACK", ackBody⟩,
    ⟨"BACKEND_TO_CLIENT", "NACK", nackBody⟩, ⟨"CLIENT_TO_BACKEND", "PING", pingBody⟩, ⟨"BACKEND_TO_CLIENT", "PONG", pingBody⟩,
    ⟨"CLIENT_TO_BACKEND", "STOP", stopBody⟩]

def Branch.parts (b : Branch) : List (String × Part) :=
  [("protocol", .check (.const "BH_OFFLINE_WIRE_V1")), ("session_id", .check uuid), ("direction", .check (.const b.direction)),
    ("counter", .check (.pattern positive)), ("message_type", .check (.const b.messageType)), ("body", .body b.body),
    ("mac", .check (.pattern hex64))]

section Validators

variable {α : Type} [View α]

/-- The schema's `oneOf`. -/
def envelope (d : Dialect) (raw : α → Bool) (v : α) : Bool :=
  (branches.filter fun b => closed (Part.holds d raw) b.parts v).length = 1

/-! ## What is asked beyond the schema -/

def field (v : α) (k : String) : Option α := (members v).lookup (text k)

def textAt (v : α) (k : String) : Option Text := (field v k).bind View.string

/-- `int(t)` and `BigInt(t)`, of a text of digits; a newline after them is no digit. -/
def integer (t : Text) : Nat := (t.filter isDigit).foldl (fun n c => 10 * n + (c - 0x30)) 0

def maxInteger : Nat := 9223372036854775807

def observations (v : α) : List α := (((field v "body").bind (field · "observations")).bind View.array).getD []

variable (size : α → Option Nat)

/-- An observation is the one the batch says it is, and not too long. -/
def itemOk (body : α) (sequence : Nat) (raw : α) : Bool :=
  textAt raw "discovery_run_id" = textAt body "run_id" &&
  ((field raw "context").bind (textAt · "browser_run_id")) = textAt body "browser_run_id" &&
  textAt raw "stream_id" = textAt body "stream_id" && textAt raw "generation" = textAt body "generation" &&
  textAt raw "sequence" = some (decimal sequence) && (size raw).any (· ≤ 65536)

def batchOk (body : α) (observations : List α) : Bool :=
  let first := ((textAt body "first_sequence").map integer).getD 0
  let last := ((textAt body "last_sequence").map integer).getD 0
  1 ≤ first && first ≤ last && last ≤ maxInteger && last - first + 1 = observations.length &&
    (textAt body "generation").any (integer · ≤ maxInteger) && (observations.zipIdx first).all fun (raw, n) => itemOk size body n raw

/-- The counter, what a BATCH holds, and the bytes. -/
def consistent (v : α) : Bool :=
  (textAt v "counter").any (integer · ≤ maxInteger) &&
  (textAt v "message_type" ≠ some (text "BATCH") || (field v "body").any (batchOk size · (observations v))) &&
  (size v).any (· ≤ 262144)

end Validators

/-! ## The two sides -/

instance {F : Type} : View (Value F) where
  string | .str s => some s | _ => none
  array | .arr l => some l | _ => none
  object | .obj l => some l | _ => none

instance {F : Type} : View (Js F) where
  string | .string s => some s | _ => none
  array | .array _ l => some l | _ => none
  object | .object _ l => some l | _ => none

variable {F G : Type}

/-- `len(rfc8785.dumps(v))` -/
def dumpedSize (floatText : F → Option Text) (v : Value F) : Option Nat := (dumps floatText v).map (encode · |>.length)

/-- `offline_protocol.validate_frame`: it does not raise. -/
def validateFrame (floatText : F → Option Text) (raw : Value F → Bool) (v : Value F) : Bool :=
  envelope .python (fun _ => true) v && (observations v).all raw && consistent (dumpedSize floatText) v

section ToJs

variable {num : Int → G} {flt : F → G}

end ToJs

/-- A text of ASCII that does not end in a newline. -/
def Neat (t : Text) : Prop := t.all (· < 0x80) ∧ t.getLast? ≠ some 0x0a
  deriving Decidable

/-- What the check accepts without a final newline is neat. -/
def Check.Neat : Check → Prop
  | .pattern core => ∀ t, core t = true → Wire.Neat t
  | .const s => Wire.Neat (text s)
  | .enum l => ∀ s ∈ l, Wire.Neat (text s)
  | .observations => True

def Part.Neat : Part → Prop
  | .check c => c.Neat
  | .body fields => ∀ f ∈ fields, (text f.1).all (· < 0x80) ∧ f.2.Neat

theorem neat_of_all {t : Text} {p : Nat → Bool} (ht : t.all p) (hp : ∀ c, p c → c < 0x80 ∧ c ≠ 0x0a) : Neat t := by
  constructor
  · exact List.all_eq_true.mpr fun c hc => decide_eq_true (hp c (List.all_eq_true.mp ht c hc)).1
  · intro h
    exact (hp _ (List.all_eq_true.mp ht _ (List.mem_of_getLast? h))).2 rfl

theorem isDigit_neat (c : Nat) (hc : isDigit c) : c < 0x80 ∧ c ≠ 0x0a := by
  simp [isDigit] at hc
  omega

theorem isHex_neat (c : Nat) (hc : isHex c) : c < 0x80 ∧ c ≠ 0x0a := by
  simp [isHex, isDigit] at hc
  omega

theorem uuid_neat : uuid.Neat := by
  intro t ht
  simp only [uuid4, Bool.and_eq_true] at ht
  have hall : t.all fun c => isHex c || c = '-'.toNat := by
    refine List.all_eq_true.mpr fun c hc => ?_
    obtain ⟨i, hi⟩ := List.mem_iff_getElem?.mp hc
    have h := List.all_eq_true.mp ht.2 (c, i) (List.mk_mem_zipIdx_iff_getElem?.mpr hi)
    simp only at h
    split_ifs at h
    · simp [of_decide_eq_true h]
    · rw [of_decide_eq_true h]
      decide
    · have hm := of_decide_eq_true h
      simp only [List.map_cons, List.map_nil, List.mem_cons, List.not_mem_nil, or_false] at hm
      rcases hm with rfl | rfl | rfl | rfl <;> decide
    · simp [h]
  refine neat_of_all hall fun c hc => ?_
  rcases Bool.or_eq_true_iff.mp hc with h | h
  · exact isHex_neat c h
  · rw [of_decide_eq_true h]
    decide

theorem nonce_neat : nonce.Neat := by
  intro t ht
  refine neat_of_all (Bool.and_eq_true_iff.mp ht).2 fun c hc => ?_
  simp [isNonceDigit, isDigit] at hc
  omega

theorem hex64_neat : (Check.pattern hex64).Neat := by
  intro t ht
  exact neat_of_all (Bool.and_eq_true_iff.mp ht).2 isHex_neat

theorem positive_neat : (Check.pattern positive).Neat := by
  intro t ht
  exact neat_of_all (Bool.and_eq_true_iff.mp ht).2 isDigit_neat

theorem unsigned_neat : (Check.pattern unsigned).Neat := by
  intro t ht
  rcases Bool.or_eq_true_iff.mp ht with h | h
  · rw [of_decide_eq_true h]
    decide
  · exact positive_neat t h

theorem bodies_neat : ∀ b ∈ branches, ∀ f ∈ b.body, (text f.1).all (· < 0x80) ∧ f.2.Neat := by
  have hu := uuid_neat
  have hn := nonce_neat
  have hx := hex64_neat
  have hp := positive_neat
  have hs := unsigned_neat
  have ho : Check.observations.Neat := trivial
  have he : ∀ l, (Check.enum l).Neat ↔ ∀ s ∈ l, Neat (text s) := fun _ => Iff.rfl
  simp only [branches, List.forall_mem_cons, helloBody, noncesBody, batchBody, ackBody, nackBody, pingBody, stopBody,
    batchIdentity, List.cons_append, List.nil_append, hu, hn, hx, hp, hs, ho, he, and_true, text,
    String.reduceToList]
  simp [Neat]

theorem parts_neat {b : Branch} (hb : b ∈ branches) : ∀ f ∈ b.parts, (text f.1).all (· < 0x80) ∧ f.2.Neat := by
  have hbody := bodies_neat b hb
  have hconst : Neat (text "BH_OFFLINE_WIRE_V1") ∧ Neat (text b.direction) ∧ Neat (text b.messageType) := by
    revert b
    simp only [branches, List.forall_mem_cons, text, String.reduceToList]
    simp [Neat]
  have hnames : ∀ f ∈ b.parts, (text f.1).all (· < 0x80) := by
    simp only [Branch.parts, List.forall_mem_cons, text, String.reduceToList]
    simp
  intro f hf
  refine ⟨hnames f hf, ?_⟩
  simp only [Branch.parts, List.mem_cons, List.not_mem_nil, or_false] at hf
  rcases hf with rfl | rfl | rfl | rfl | rfl | rfl | rfl
  · exact hconst.1
  · exact uuid_neat
  · exact hconst.2.1
  · exact positive_neat
  · exact hconst.2.2
  · exact hbody
  · exact hex64_neat

section Narrowed

variable {num : Int → G} {flt : F → G} {raw : Js G → Bool}

theorem filter_one {β : Type} {l : List β} {p : β → Bool} (h : l.Pairwise fun a b => ¬(p a = true ∧ p b = true)) :
    (l.filter p).length = 1 ↔ ∃ b ∈ l, p b = true := by
  induction l with
  | nil => simp
  | cons a l ih =>
    rw [List.pairwise_cons] at h
    by_cases ha : p a = true
    · have hnil : l.filter p = [] := List.filter_eq_nil_iff.mpr fun b hb hpb => h.1 b hb ⟨ha, hpb⟩
      simp [ha, hnil]
    · simp [ha, ih h.2]

/-- A value has the message type of a branch it matches. -/
theorem closed_messageType {α : Type} [View α] {d : Dialect} {accepts : α → Bool} {b : Branch} {v : α}
    (h : closed (Part.holds d accepts) b.parts v = true) : (∃ m ∈ members v, m.1 = text "message_type") ∧
      ∀ m ∈ members v, m.1 = text "message_type" → View.string m.2 = some (text b.messageType) := by
  cases ho : View.object v with
  | none => simp [closed, ho] at h
  | some l =>
    simp only [closed, ho, Option.any_some, Bool.and_eq_true, List.all_eq_true, List.any_eq_true, decide_eq_true_eq] at h
    simp only [members, ho, Option.getD_some]
    refine ⟨h.2 ("message_type", .check (.const b.messageType)) (by simp [Branch.parts]), fun m hm he => ?_⟩
    have hf := h.1 m hm
    have hfind : b.parts.find? (fun f => text f.1 = m.1) = some ("message_type", .check (.const b.messageType)) := by
      rw [he]
      simp only [text_eq_iff]
      rfl
    rw [hfind] at hf
    simp only [Option.any_some, Part.holds, Check.holds, Option.any_eq_true, decide_eq_true_eq] at hf
    obtain ⟨t, ht, rfl⟩ := hf
    exact ht

theorem envelope_iff {α : Type} [View α] {d : Dialect} {accepts : α → Bool} {v : α} : envelope d accepts v = true ↔
    ∃ b ∈ branches, closed (Part.holds d accepts) b.parts v = true := by
  rw [envelope, decide_eq_true_eq]
  refine filter_one ?_
  have hne : branches.Pairwise fun a b => a.messageType ≠ b.messageType := by
    simp [branches]
  refine hne.imp fun {a b} hab hboth => hab ?_
  obtain ⟨⟨m, hm, hk⟩, ha⟩ := closed_messageType hboth.1
  have h1 := ha m hm hk
  rw [(closed_messageType hboth.2).2 m hm hk] at h1
  exact (text_inj (Option.some.inj h1)).symm

/-- The members of a frame and of its body. -/
def outer (v : Value F) : List (Value F) := (members v).flatMap fun m => m.2 :: (members m.2).map (·.2)

end Narrowed

/-- The property a member of a value that matches was checked by. -/
theorem closed_member {α κ : Type} [View α] {holds : κ → α → Bool} {fields : List (String × κ)} {v : α}
    (h : closed holds fields v = true) {m : Text × α} (hm : m ∈ members v) :
    ∃ f ∈ fields, text f.1 = m.1 ∧ holds f.2 m.2 = true := by
  cases ho : View.object v with
  | none => simp [closed, ho] at h
  | some l =>
    simp only [closed, ho, Option.any_some, Bool.and_eq_true, List.all_eq_true] at h
    simp only [members, ho, Option.getD_some] at hm
    obtain ⟨f, hf, hh⟩ := (Option.any_eq_true _ _).mp (h.1 m hm)
    exact ⟨f, List.mem_of_find?_eq_some hf, by simpa using List.find?_some hf, hh⟩

theorem observations_named : ∀ b ∈ branches, ∀ f ∈ b.body, f.2 = .observations → f.1 = "observations" := by
  simp only [branches, List.forall_mem_cons, helloBody, noncesBody, batchBody, ackBody, nackBody, pingBody, stopBody,
    batchIdentity, List.cons_append, List.nil_append]
  simp [uuid, nonce]

theorem parts_shape (b : Branch) : ∀ f ∈ b.parts, f.2 ≠ .check .observations ∧
    ∀ fields, f.2 = .body fields → f.1 = "body" ∧ fields = b.body := by
  simp only [Branch.parts, List.forall_mem_cons]
  simp [uuid]

theorem holds_array {d : Dialect} {accepts : Value F → Bool} {c : Check} {l : List (Value F)}
    (h : c.holds d accepts (.arr l) = true) : c = .observations := by
  cases c <;> first | rfl | simp [Check.holds, View.string] at h

theorem field_mem {α : Type} [View α] {v u : α} {k : String} (h : field v k = some u) : (text k, u) ∈ members v :=
  Js.lookup_some_mem h

theorem distinct_member {l : List (Text × Value F)} (h : DistinctMembers l) {m : Text × Value F} (hm : m ∈ l) : Distinct m.2 := by
  induction l with
  | nil => cases hm
  | cons n l ih =>
    rcases List.mem_cons.mp hm with rfl | hm
    · exact h.1
    · exact ih h.2 hm

theorem field_of_mem {v u : Value F} (hd : Distinct v) {k : String} (hm : (text k, u) ∈ members v) : field v k = some u := by
  cases v with
  | obj l => exact lookup_eq hd.1 hm
  | _ => cases hm

/-- The arrays of a frame are its observations. -/
theorem outer_arrays {v : Value F} (hd : Distinct v) (he : envelope .python (fun _ => true) v = true) {R : Value F → Prop} :
    (∀ u ∈ outer v, ∀ l ∈ View.array u, ∀ o ∈ l, R o) ↔ ∀ o ∈ observations v, R o := by
  obtain ⟨b, hb, hc⟩ := envelope_iff.mp he
  constructor
  · intro h o ho
    cases hbody : field v "body" with
    | none => simp [observations, hbody] at ho
    | some body =>
      cases hobs : field body "observations" with
      | none => simp [observations, hbody, hobs] at ho
      | some obs =>
        cases hl : View.array obs with
        | none => simp [observations, hbody, hobs, hl] at ho
        | some l =>
          have hin : obs ∈ outer v := List.mem_flatMap.mpr ⟨_, field_mem hbody,
            List.mem_cons_of_mem _ (List.mem_map_of_mem (field_mem hobs))⟩
          simp only [observations, hbody, hobs, hl, Option.bind_some, Option.getD_some] at ho
          exact h obs hin l hl o ho
  · intro h u hu l hl o ho
    obtain rfl : u = .arr l := by
      cases u with
      | arr k => exact congrArg Value.arr (Option.some.inj hl)
      | _ => cases hl
    obtain ⟨m, hm, hu⟩ := List.mem_flatMap.mp hu
    obtain ⟨f, hf, hname, hholds⟩ := closed_member hc hm
    obtain ⟨hcheck, hbody⟩ := parts_shape b f hf
    cases hp : f.2 with
    | check c =>
      rw [hp] at hholds
      rcases List.mem_cons.mp hu with hu | hu
      · rw [← hu] at hholds
        exact absurd (hp.trans (congrArg Part.check (holds_array hholds))) hcheck
      · -- nothing but a body has members
        obtain ⟨n, hn, -⟩ := List.mem_map.mp hu
        cases hv : m.2 with
        | obj k => cases c <;> simp [hv, Part.holds, Check.holds, View.string, View.array] at hholds
        | _ => rw [hv] at hn; cases hn
    | body fields =>
      rw [hp] at hholds
      obtain ⟨hbname, rfl⟩ := hbody fields hp
      rcases List.mem_cons.mp hu with hu | hu
      · simp [← hu, Part.holds, closed, View.object] at hholds
      · obtain ⟨n, hn, hnu⟩ := List.mem_map.mp hu
        obtain ⟨g, hg, hgname, hgholds⟩ := closed_member hholds hn
        rw [hnu] at hgholds
        have hobs := observations_named b hb g hg (holds_array hgholds)
        have hd' : Distinct m.2 := by
          cases v with
          | obj k => exact distinct_member hd.2 hm
          | _ => cases hm
        have h1 : field v "body" = some m.2 := field_of_mem hd (by rw [← hbname, hname]; exact hm)
        have h2 : field m.2 "observations" = some (.arr l) := field_of_mem hd' (by rw [← hobs, hgname, ← hnu]; exact hn)
        refine h o ?_
        simp only [observations, h1, h2, Option.bind_some, View.array, Option.getD_some]
        exact ho

section Alike

variable {num : Int → G} {flt : F → G} {v : Value F}

theorem Check.holds_ascii {c : Check} (hc : c.Neat) {d : Dialect} {accepts : Value F → Bool} {t : Text}
    (h : c.holds d accepts (.str t) = true) : t.all (· < 0x80) := by
  cases c with
  | pattern core =>
    simp only [Check.holds, View.string, Option.any_some, Dialect.anchored, Bool.or_eq_true] at h
    rcases h with h | h
    · exact (hc t h).1
    · cases d with
      | ecmaScript => cases h
      | python =>
        rw [Bool.and_eq_true, decide_eq_true_eq] at h
        obtain ⟨s, hs⟩ := List.getLast?_eq_some_iff.mp h.1
        have hn := (hc _ h.2).1
        rw [hs, List.dropLast_concat] at hn
        rw [hs, List.all_append, hn]
        rfl
  | const s =>
    simp only [Check.holds, View.string, Option.any_some, decide_eq_true_eq] at h
    exact h ▸ hc.1
  | enum l =>
    simp only [Check.holds, View.string, Option.any_some, List.any_eq_true, decide_eq_true_eq] at h
    obtain ⟨s, hs, rfl⟩ := h
    exact (hc s hs).1
  | observations => simp [Check.holds, View.array] at h

/-- What holds of ASCII texts, passes from items to their array and from members to their
    object, holds of a frame where it holds of its observations. -/
theorem of_envelope {R : Value F → Prop} (hstr : ∀ t : Text, t.all (· < 0x80) → R (.str t))
    (harr : ∀ l, (∀ o ∈ l, R o) → R (.arr l)) (hobj : ∀ l, (∀ m ∈ l, m.1.all (· < 0x80) ∧ R m.2) → R (.obj l))
    (hd : Distinct v) (he : envelope .python (fun _ => true) v = true) (ho : ∀ o ∈ observations v, R o) : R v := by
  obtain ⟨b, hb, hc⟩ := envelope_iff.mp he
  have hall := (outer_arrays hd he (R := R)).mpr ho
  have hcheck : ∀ {c : Check} {u : Value F}, c.Neat → c.holds .python (fun _ => true) u = true →
      (∀ l ∈ View.array u, ∀ o ∈ l, R o) → R u := by
    intro c u hc h hl
    cases u with
    | str t => exact hstr t (Check.holds_ascii hc h)
    | arr l => exact harr l (hl l rfl)
    | _ => cases c <;> simp [Check.holds, View.string, View.array] at h
  cases v with
  | obj l =>
    refine hobj l fun m hm => ?_
    obtain ⟨f, hf, hname, hholds⟩ := closed_member hc hm
    obtain ⟨hascii, hneat⟩ := parts_neat hb f hf
    refine ⟨hname ▸ hascii, ?_⟩
    have hm1 : m.2 ∈ outer (.obj l) := List.mem_flatMap.mpr ⟨m, hm, List.mem_cons_self⟩
    cases hp : f.2 with
    | check c =>
      rw [hp] at hholds hneat
      exact hcheck hneat hholds (hall m.2 hm1)
    | body fields =>
      rw [hp] at hholds hneat
      cases hu : m.2 with
      | obj k =>
        rw [hu] at hholds
        refine hobj k fun n hn => ?_
        obtain ⟨g, hg, hgname, hgholds⟩ := closed_member hholds hn
        have hn1 : n.2 ∈ outer (.obj l) := by
          refine List.mem_flatMap.mpr ⟨m, hm, List.mem_cons_of_mem _ ?_⟩
          rw [hu]
          exact List.mem_map_of_mem hn
        exact ⟨hgname ▸ (hneat g hg).1, hcheck (hneat g hg).2 hgholds (hall n.2 hn1)⟩
      | _ => rw [hu] at hholds; simp [Part.holds, closed, View.object] at hholds
  | _ => simp [closed, View.object] at hc

/-- A frame has no numbers where its observations have none. -/
theorem free_of_envelope (hd : Distinct v) (he : envelope .python (fun _ => true) v = true)
    (ho : ∀ o ∈ observations v, Free o) : Free v :=
  of_envelope (fun _ h => scalar_ascii h) (fun _ h => freeItems_iff.mpr h)
    (fun _ h => freeMembers_iff.mpr fun m hm => ⟨scalar_ascii (h m hm).1, (h m hm).2⟩) hd he ho

theorem ascii_of_envelope (hd : Distinct v) (he : envelope .python (fun _ => true) v = true)
    (ho : ∀ o ∈ observations v, Ascii o) : Ascii v :=
  of_envelope (fun _ h => h) (fun _ h => asciiItems_iff.mpr h) (fun _ h => asciiMembers_iff.mpr h) hd he ho

variable {size : Value F → Option Nat} {size' : Js G → Option Nat}

variable {P : Platform G} {floatText : F → Option Text}

end Alike

/-! ## Two frames -/

section Pings

def ping (mac : String) : Doc := .obj ([
  ("protocol", Lib.Json.str "BH_OFFLINE_WIRE_V1"), ("session_id", Lib.Json.str "00000000-0000-4000-8000-000000000000"),
  ("direction", Lib.Json.str "CLIENT_TO_BACKEND"), ("counter", Lib.Json.str "1"), ("message_type", Lib.Json.str "PING"),
  ("body", .obj [(text "nonce", Lib.Json.str "AAAAAAAAAAAAAAAAAAAAAAAAAAAAAAAAAAAAAAAAAAA"), (text "monotonic_us", Lib.Json.str "0")]),
  ("mac", Lib.Json.str mac)].map fun m => (text m.1, m.2))

end Pings

end BettingHelper.Wire
