/-
  BettingHelper.Wire.Encoding — a frame as bytes: `encode_frame`, `SessionState.send` and
  `verify_frame` of offline_protocol.py, over `canonical.parse_strict_json`.

  HMAC-SHA256, the raw-observation schema and Unicode normalization are parameters. The
  raw schema accepts no number and no text that is not ASCII.

  Proved (`send_verified`): what one side sends the other returns with its mac, and counts;
  a failed send leaves the state.
-/

import BettingHelper.Wire.FrameSchema
import BettingHelper.Wire.Session

namespace BettingHelper.Wire

open BettingHelper.Lib.Json BettingHelper.Ingest

/-! ## `parse_strict_json` -/

inductive CanonicalError where
  /-- `MALFORMED_UTF8_OR_JSON` -/
  | malformedUtf8OrJson
  /-- `DUPLICATE_JSON_KEY` -/
  | duplicateJsonKey
  /-- `NON_NFC_OR_INVALID_UNICODE` -/
  | nonNfcOrInvalidUnicode
  deriving DecidableEq, Repr

/-- `_unique_object` and `_reject_constant`. -/
def strictHooks : Hooks Text CanonicalError where
  decodeError := .malformedUtf8OrJson
  parseFloat := (plainHooks ()).parseFloat
  parseConstant := fun _ => .error .malformedUtf8OrJson
  pairs := fun l => if (l.map (·.1)).Nodup then .ok (.obj (dict l)) else .error .duplicateJsonKey

section Unicode

variable (nfc : Text → Bool)

def validText (s : Text) : Bool := !(s.any fun c => isHigh c || isLow c) && nfc s

mutual

/-- `_validate_unicode`: it does not raise. -/
def validUnicode : Doc → Bool
  | .str s => validText nfc s
  | .obj l => validMembers l
  | .arr l => validItems l
  | _ => true

def validItems : List Doc → Bool
  | [] => true
  | v :: l => validUnicode v && validItems l

def validMembers : List (Text × Doc) → Bool
  | [] => true
  | (k, v) :: l => validText nfc k && validUnicode v && validMembers l

end

def parseStrictJson (raw : List UInt8) : Except CanonicalError Doc :=
  if [0xef, 0xbb, 0xbf] <+: raw then .error .malformedUtf8OrJson
  else
    match decode raw with
    | none => .error .malformedUtf8OrJson
    | some t =>
      match loads strictHooks t with
      | .error e => .error e
      | .ok v => if validUnicode nfc v then .ok v else .error .nonNfcOrInvalidUnicode

end Unicode

/-! ## Frames and bytes -/

structure Codec where
  key : List UInt8
  /-- HMAC-SHA256 -/
  hmac : List UInt8 → List UInt8 → BitVec 256
  /-- `validate_artifact(raw, "raw-observation.schema.json")`: it does not raise. -/
  raw : Doc → Bool
  /-- `unicodedata.normalize("NFC", s) == s` -/
  nfc : Text → Bool
  raw_ascii : ∀ o, raw o = true → Ascii o
  nfc_ascii : ∀ t : Text, t.all (· < 0x80) → nfc t = true

/-- A JSON value, a dictionary being its members in the order of their names. -/
structure JsonValue where
  doc : Doc
  ordered : Ordered doc

def domain : List UInt8 := encode (text "BH-OFFLINE-WIRE/v1") ++ [0]

/-- `hmac.new(key, b"BH-OFFLINE-WIRE/v1\0" + rfc8785.dumps(content), sha256).hexdigest()` -/
def Codec.mac (C : Codec) (content : Doc) : Text := text (hex (C.hmac C.key (domain ++ content.bytes)))

/-- `{**frame, "mac": mac}` -/
def withMac (frame : Doc) (mac : Text) : Doc := .obj (update (members frame) (text "mac") (.str mac))

/-- `{k: v for k, v in frame.items() if k != "mac"}` -/
def content (frame : Doc) : Doc := .obj (without (members frame) (text "mac"))

def Codec.encodeFrame (C : Codec) (frameWithoutMac : Doc) : Except SessionError (List UInt8) :=
  if C.key.length ≠ 32 ∨ text "mac" ∈ (members frameWithoutMac).map (·.1) then .error .keyOrFrame
  else if !validateFrame some C.raw (withMac frameWithoutMac (text zeros)) then .error .schema
  else .ok (withMac frameWithoutMac (C.mac frameWithoutMac)).bytes

/-! ## What `accept` reads -/

def ofText (t : Text) : String := String.ofList (t.map Char.ofNat)

def Direction.name : Direction → String
  | .clientToBackend => "CLIENT_TO_BACKEND"
  | .backendToClient => "BACKEND_TO_CLIENT"

def Direction.ofText (t : Text) : Option Direction := [.clientToBackend, .backendToClient].find? (text ·.name = t)

def MessageType.name : MessageType → String
  | .hello => "HELLO"
  | .welcome => "WELCOME"
  | .ready => "READY"
  | .readyAck => "READY_ACK"
  | .batch => "BATCH"
  | .ack => "ACK"
  | .nack => "NACK"
  | .ping => "PING"
  | .pong => "PONG"
  | .stop => "STOP"

def MessageType.ofText (t : Text) : Option MessageType :=
  [.hello, .welcome, .ready, .readyAck, .batch, .ack, .nack, .ping, .pong, .stop].find? (text ·.name = t)

/-- A text of digits, and whether a newline follows them. -/
def decimalText (t : Text) : DecimalText := ⟨integer t, t.getLast? = some 0x0a⟩

/-- The frame `accept` sees, of a value that passed `validate_frame`. -/
def Frame.ofDoc (v : Doc) : Option Frame := do
  let sessionId ← textAt v "session_id"
  let direction ← (textAt v "direction").bind Direction.ofText
  let counter ← textAt v "counter"
  let messageType ← (textAt v "message_type").bind MessageType.ofText
  let body ← field v "body"
  some ⟨Wire.ofText sessionId, direction, decimalText counter, messageType,
    ⟨(textAt body "run_id").map Wire.ofText, (textAt body "client_nonce").map Wire.ofText,
      (textAt body "server_nonce").map Wire.ofText, Wire.ofText ((dumps some body).getD [])⟩⟩

def acceptDoc (s : SessionState) (now : Rat) (frame : Doc) (incoming : Prop) [Decidable incoming] :
    SessionState × Except SessionError Unit :=
  match Frame.ofDoc frame with
  | none => (s, .error .schema)   -- no validated frame lacks a member
  | some f => accept s now f incoming

/-! ## The two ends -/

/-- The frame `send` builds. -/
def SessionState.doc (s : SessionState) (messageType : Text) (body : Doc) : Doc :=
  record [("protocol", str "BH_OFFLINE_WIRE_V1"), ("session_id", str s.sessionId), ("direction", str s.role.outgoing.name),
    ("counter", .str (decimal (s.outCounter + 1))), ("message_type", .str messageType), ("body", body)]

def Codec.send (C : Codec) (s : SessionState) (now : Rat) (messageType : Text) (body : JsonValue) :
    SessionState × Except SessionError (List UInt8) :=
  match C.encodeFrame (s.doc messageType body.doc) with
  | .error e => (s, .error e)
  | .ok encoded =>
    match acceptDoc s now (s.doc messageType body.doc) False with
    | (s, .error e) => (s, .error e)
    | (s, .ok ()) => (s, .ok encoded)

def Codec.verifyFrame (C : Codec) (s : SessionState) (now : Rat) (data : List UInt8) :
    SessionState × Except SessionError Doc :=
  if data.length > 262144 ∨ C.key.length ≠ 32 then (s, .error .frameSizeOrKey)
  else
    match parseStrictJson C.nfc data with
    | .error _ => (s, .error .schema)
    | .ok frame =>
      if (View.object frame).isNone || !validateFrame some C.raw frame then (s, .error .schema)
      else if textAt frame "mac" ≠ some (C.mac (content frame)) then (s, .error .mac)
      else
        match acceptDoc s now frame True with
        | (s, .error e) => (s, .error e)
        | (s, .ok ()) => (s, .ok frame)

/-- The peer is where the sender is, and its handshake is not over time. -/
structure Matching (s peer : SessionState) (now : Rat) : Prop where
  sessionId : peer.sessionId = s.sessionId
  runId : peer.runId = s.runId
  role : peer.role = s.role.other
  stage : peer.stage = s.stage
  clientNonce : peer.clientNonce = s.clientNonce
  serverNonce : peer.serverNonce = s.serverNonce
  counter : peer.inCounter = s.outCounter
  inTime : peer.stage < 4 → now - peer.started ≤ 5

/-- The peer once it has taken the frame that brought the sender to `s`. -/
def SessionState.receives (peer s : SessionState) : SessionState :=
  { peer with stage := s.stage, clientNonce := s.clientNonce, serverNonce := s.serverNonce, inCounter := peer.inCounter + 1 }

/-! ## Texts -/

theorem ofText_eq {t : Text} (ht : t.all isScalar) {s : String} : ofText t = s ↔ t = text s := by
  obtain ⟨cs, rfl⟩ := exists_chars ht
  constructor
  · intro h
    rw [← h, ofText, List.map_map, List.map_id'' (f := Char.ofNat ∘ Char.toNat) (fun c => Char.ofNat_toNat c), text,
      String.toList_ofList]
  · intro h
    rw [h]
    exact ofNat_text s

theorem integer_append (s : Text) {c : Nat} (hc : isDigit c) : integer (s ++ [c]) = 10 * integer s + (c - 0x30) := by
  rw [integer, List.filter_append, List.foldl_append, ← integer, List.filter_cons_of_pos hc]
  rfl

theorem decimal_nat (n : Nat) : decimal n = (Nat.toDigits 10 n).map Char.toNat := by
  rw [decimal, if_neg (by omega), List.nil_append, Int.natAbs_natCast]

theorem decimal_digit {d : Nat} (hd : d < 10) : decimal d = [0x30 + d] := by
  have hchar : ∀ d < 10, (Nat.digitChar d).toNat = 0x30 + d := by decide
  rw [decimal_nat, Nat.toDigits_of_lt_base hd, List.map_singleton, hchar d hd]

theorem decimal_snoc {n d : Nat} (hn : 0 < n) (hd : d < 10) : decimal (10 * n + d : Nat) = decimal n ++ [0x30 + d] := by
  rw [decimal_nat, ← Nat.toDigits_append_toDigits (by decide) hn hd, List.map_append, ← decimal_nat, ← decimal_nat,
    decimal_digit hd]

theorem positive_iff {t : Text} : positive t = true ↔ (∃ c, t.head? = some c ∧ c ≠ 0x30) ∧ ∀ c ∈ t, isDigit c = true := by
  rw [positive, Bool.and_eq_true, Option.any_eq_true, List.all_eq_true]
  constructor
  · intro ⟨⟨c, hc, hp⟩, hall⟩
    exact ⟨⟨c, hc, of_decide_eq_true (Bool.and_eq_true_iff.mp hp).2⟩, hall⟩
  · intro ⟨⟨c, hc, hp⟩, hall⟩
    refine ⟨⟨c, hc, ?_⟩, hall⟩
    rw [hall c (List.mem_of_head? hc), Bool.true_and]
    exact decide_eq_true hp

/-- A text of digits that starts with none of `0` is the one of its number. -/
theorem decimal_integer {t : Text} (ht : positive t = true) : 0 < integer t ∧ decimal (integer t) = t := by
  obtain ⟨⟨a, ha, hne⟩, hall⟩ := positive_iff.mp ht
  clear ht
  induction t using List.reverseRecOn with
  | nil => cases ha
  | append_singleton t c ih =>
    have hc : isDigit c = true := hall c (by simp)
    have hdigit : 0x30 ≤ c ∧ c ≤ 0x39 := by simpa [isDigit] using hc
    rw [integer_append t hc]
    cases t with
    | nil =>
      obtain rfl : c = a := Option.some.inj ha
      have h0 : integer [] = 0 := rfl
      rw [h0, Nat.mul_zero, Nat.zero_add, decimal_digit (by omega), List.nil_append]
      exact ⟨by omega, by rw [Nat.add_sub_cancel' hdigit.1]⟩
    | cons b t =>
      obtain ⟨hpos, hdec⟩ := ih (fun d hd => hall d (List.mem_append_left _ hd)) ha
      refine ⟨by omega, ?_⟩
      rw [decimal_snoc hpos (by omega), hdec, Nat.add_sub_cancel' hdigit.1]

theorem integer_decimal (n : Nat) : integer (decimal n) = n := by
  have hfilter : (decimal n).filter isDigit = decimal n := by
    rw [decimal_nat]
    exact List.filter_eq_self.mpr (digits_isDigit n)
  rw [integer, hfilter, decimal_nat, List.foldl_map]
  exact Nat.ofDigitChars_ten_toDigits

theorem decimalText_decimal (n : Nat) : decimalText (decimal n) = plain n := by
  have hlast : (decimal n).getLast? ≠ some 0x0a := by
    intro h
    have hmem := List.mem_of_getLast? h
    rw [decimal_nat] at hmem
    exact absurd (digits_isDigit n _ hmem) (by decide)
  rw [decimalText, integer_decimal, decide_eq_false hlast]
  rfl

/-- A validated counter is compared as a text. -/
theorem decimalText_eq {t : Text} (ht : Dialect.python.anchored positive t = true) {n : Nat} :
    decimalText t = plain n ↔ t = decimal n := by
  constructor
  · intro h
    have hn : integer t = n := congrArg Anchored.value h
    have hline : t.getLast? ≠ some 0x0a := of_decide_eq_false (congrArg Anchored.newline h)
    rcases Bool.or_eq_true_iff.mp ht with hp | hp
    · rw [← hn, (decimal_integer hp).2]
    · rw [Bool.and_eq_true, decide_eq_true_eq] at hp
      exact absurd hp.1 hline
  · intro h
    rw [h, decimalText_decimal]

theorem hex_hex64 (x : BitVec 256) : hex64 (text (hex x)) = true := by
  have hchar : ∀ n < 16, isHex (Nat.digitChar n).toNat = true := by decide
  rw [hex64, hex, text, String.toList_ofList, Bool.and_eq_true, decide_eq_true_eq, List.all_eq_true]
  refine ⟨by simp, fun c hc => ?_⟩
  simp only [List.mem_map] at hc
  obtain ⟨d, ⟨i, -, rfl⟩, rfl⟩ := hc
  exact hchar _ (Nat.mod_lt _ (by decide))

theorem zeros_hex64 : hex64 (text zeros) = true := by
  simp only [zeros, text, String.reduceToList]
  decide

/-- Every mac is as long as another. -/
theorem hex64_ascii {t : Text} (hh : hex64 t) : t.all (· < 0x80) := by
  rw [hex64, Bool.and_eq_true, List.all_eq_true] at hh
  refine List.all_eq_true.mpr fun c hc => ?_
  have := hh.2 c hc
  simp only [isHex, isDigit, Bool.or_eq_true, Bool.and_eq_true, decide_eq_true_eq] at this ⊢
  omega

theorem size_hex64 {t : Text} (ht : hex64 t = true) : size (.str t : Doc) = 66 := by
  rw [hex64, Bool.and_eq_true, decide_eq_true_eq, List.all_eq_true] at ht
  have hascii : ∀ c ∈ t, c < 0x80 := fun c hc => (isHex_neat c (ht.2 c hc)).1
  have hplain : t.flatMap escape = t := by
    have : ∀ c ∈ t, escape c = [c] := by
      intro c hc
      have := ht.2 c hc
      simp [isHex, isDigit] at this
      unfold escape
      split_ifs <;> first | rfl | (simp at *; omega)
    rw [List.flatMap_congr this]
    simp
  rw [size, quote, hplain, encode_enclosed (by decide) (by decide), encode_ascii hascii, List.length_map, ht.1]

/-! ## Another mac -/

/-- The value with another text under `mac`. -/
def remac (mac : Text) (m : Text × Doc) : Text × Doc := if m.1 = text "mac" then (m.1, .str mac) else m

section Remac

variable {l : List (Text × Doc)} {a b : Text}

theorem remac_fst (mac : Text) (m : Text × Doc) : (remac mac m).1 = m.1 := by
  unfold remac
  split_ifs <;> rfl

theorem closed_remac {br : Branch} (hb : hex64 b = true) (h : closed (Part.holds .python fun _ => true) br.parts (.obj l : Doc) = true) :
    closed (Part.holds .python fun _ => true) br.parts (.obj (l.map (remac b)) : Doc) = true := by
  simp only [closed, View.object, Option.any_some, Bool.and_eq_true, List.all_eq_true, List.all_map, List.any_map,
    Function.comp_apply, remac_fst] at h ⊢
  refine ⟨fun m hm => ?_, fun f hf => ?_⟩
  rotate_left
  · obtain ⟨m, hm, hk⟩ := List.any_eq_true.mp (h.2 f hf)
    exact List.any_eq_true.mpr ⟨m, hm, by rw [Function.comp_apply, remac_fst]; exact hk⟩
  have hm' := h.1 m hm
  by_cases hmac : m.1 = text "mac"
  · have hfind : br.parts.find? (fun f => text f.1 = m.1) = some ("mac", .check (.pattern hex64)) := by
      rw [hmac]
      simp only [text_eq_iff]
      rfl
    simp only [hfind, remac, if_pos hmac, Option.any_some, Part.holds, Check.holds, View.string, Dialect.anchored, hb,
      Bool.true_or]
  · rwa [remac, if_neg hmac]

theorem lookup_remac {k : Text} (hk : k ≠ text "mac") (l : List (Text × Doc)) : (l.map (remac b)).lookup k = l.lookup k := by
  induction l with
  | nil => rfl
  | cons m l ih =>
    rw [List.map_cons, List.lookup_cons, List.lookup_cons, remac_fst, ih]
    by_cases hm : k = m.1
    · rw [remac, if_neg (hm ▸ hk)]
    · have : (k == m.1) = false := beq_eq_false_iff_ne.mpr hm
      simp only [this]

theorem memberSizes_remac (hl : ∀ m ∈ l, m.1 = text "mac" → size m.2 = 66) (hb : hex64 b = true) :
    memberSizes (l.map (remac b)) = memberSizes l := by
  induction l with
  | nil => rfl
  | cons m l ih =>
    have hm : size (remac b m).2 = size m.2 := by
      unfold remac
      split_ifs with hk
      · rw [size_hex64 hb, hl m List.mem_cons_self hk]
      · rfl
    rw [List.map_cons, memberSizes, memberSizes, ih fun n hn => hl n (List.mem_cons_of_mem m hn), remac_fst, hm]

theorem withMac_remac (hl : text "mac" ∉ l.map (·.1)) : withMac (.obj l) b = .obj ((update l (text "mac") (.str a)).map (remac b)) := by
  rw [withMac]
  congr 1
  exact update_map hl (.str a) (.str b)

theorem withMac_ordered (hl : Ordered (.obj l : Doc)) : Ordered (withMac (.obj l) a) := by
  refine ⟨dict_dict _, orderedMembers_iff.mpr fun m hm => ?_⟩
  rcases List.mem_append.mp (dict_mem hm) with hm | hm
  · exact orderedMembers_iff.mp hl.2 m hm
  · rw [List.mem_singleton.mp hm]
    trivial

variable {C : Codec}

theorem validateFrame_iff {v : Doc} : validateFrame some C.raw v = true ↔ envelope .python (fun _ => true) v = true ∧
    (∀ o ∈ observations v, C.raw o = true) ∧ consistent (dumpedSize some) v = true := by
  rw [validateFrame, Bool.and_eq_true, Bool.and_eq_true, List.all_eq_true, and_assoc]

/-- What is validated with zeros for a mac is with any other. -/
theorem validate_withMac (hl : Ordered (.obj l : Doc)) (hmac : text "mac" ∉ l.map (·.1)) (ha : hex64 a = true) (hb : hex64 b = true)
    (h : validateFrame some C.raw (withMac (.obj l) a) = true) : validateFrame some C.raw (withMac (.obj l) b) = true := by
  obtain ⟨he, ho, hc⟩ := validateFrame_iff.mp h
  have hdistinct := (withMac_ordered (a := b) hl).distinct
  have hfree := free_of_envelope (withMac_ordered hl).distinct he fun o hm => (C.raw_ascii o (ho o hm)).free
  rw [withMac_remac (a := a) hmac] at hdistinct ⊢
  have hfield : ∀ k, text k ≠ text "mac" → field (.obj ((update l (text "mac") (.str a)).map (remac b)) : Doc) k =
      field (withMac (.obj l) a) k := fun k hk => lookup_remac hk _
  have hbody := hfield "body" (by rw [ne_eq, text_eq_iff]; decide)
  have hobs : observations (.obj ((update l (text "mac") (.str a)).map (remac b)) : Doc) = observations (withMac (.obj l) a) := by
    rw [observations, observations, hbody]
  have henv : envelope .python (fun _ => true) (.obj ((update l (text "mac") (.str a)).map (remac b)) : Doc) = true := by
    obtain ⟨br, hbr, hcl⟩ := envelope_iff.mp he
    exact envelope_iff.mpr ⟨br, hbr, closed_remac hb hcl⟩
  have hfree' := free_of_envelope hdistinct henv fun o hm => (C.raw_ascii o (ho o (hobs ▸ hm))).free
  have hsize : dumpedSize some (.obj ((update l (text "mac") (.str a)).map (remac b)) : Doc) =
      dumpedSize some (withMac (.obj l) a) := by
    obtain ⟨t, ht, hs⟩ := @dumps_size _ some _ hfree
    obtain ⟨t', ht', hs'⟩ := @dumps_size _ some _ hfree'
    rw [dumpedSize, dumpedSize, ht, ht', Option.map_some, Option.map_some, hs, hs', withMac, size, size, memberSizes_remac _ hb]
    · rfl
    · intro m hm hk
      rcases List.mem_append.mp (dict_mem hm) with hm | hm
      · exact absurd (List.mem_map.mpr ⟨m, hm, hk⟩) hmac
      · rw [List.mem_singleton.mp hm]
        exact size_hex64 ha
  refine validateFrame_iff.mpr ⟨henv, fun o hm => ho o (hobs ▸ hm), ?_⟩
  have hcounter := hfield "counter" (by rw [ne_eq, text_eq_iff]; decide)
  have htype := hfield "message_type" (by rw [ne_eq, text_eq_iff]; decide)
  rw [consistent, textAt, textAt, hcounter, htype, hbody, hobs, hsize]
  exact hc

end Remac

/-! ## The decoder reads what the encoder writes -/

section Unicode

variable {nfc : Text → Bool}

theorem validItems_iff {l : List Doc} : validItems nfc l ↔ ∀ v ∈ l, validUnicode nfc v := by
  induction l with
  | nil => simp [validItems]
  | cons v l ih => rw [validItems, Bool.and_eq_true, ih, List.forall_mem_cons]

theorem validMembers_iff {l : List (Text × Doc)} :
    validMembers nfc l ↔ ∀ m ∈ l, validText nfc m.1 ∧ validUnicode nfc m.2 := by
  induction l with
  | nil => simp [validMembers]
  | cons m l ih => rw [validMembers, Bool.and_eq_true, Bool.and_eq_true, ih, List.forall_mem_cons]

theorem validText_ascii (hn : ∀ t : Text, t.all (· < 0x80) → nfc t = true) {t : Text} (ht : t.all (· < 0x80)) :
    validText nfc t = true := by
  rw [validText, hn t ht, Bool.and_true, Bool.not_eq_true', List.any_eq_false]
  intro c hc
  have := of_decide_eq_true (List.all_eq_true.mp ht c hc)
  simp [isHigh, isLow]
  omega

mutual

theorem validUnicode_ascii (hn : ∀ t : Text, t.all (· < 0x80) → nfc t = true) : ∀ {v : Doc}, Ascii v → validUnicode nfc v = true
  | .null, _ => rfl
  | .bool _, _ => rfl
  | .str _, h => validText_ascii hn h
  | .arr _, h => validItems_ascii hn h
  | .obj _, h => validMembers_ascii hn h

theorem validItems_ascii (hn : ∀ t : Text, t.all (· < 0x80) → nfc t = true) :
    ∀ {l : List Doc}, AsciiItems l → validItems nfc l = true
  | [], _ => rfl
  | _ :: _, h => Bool.and_eq_true_iff.mpr ⟨validUnicode_ascii hn h.1, validItems_ascii hn h.2⟩

theorem validMembers_ascii (hn : ∀ t : Text, t.all (· < 0x80) → nfc t = true) :
    ∀ {l : List (Text × Doc)}, AsciiMembers l → validMembers nfc l = true
  | [], _ => rfl
  | _ :: _, h => Bool.and_eq_true_iff.mpr
      ⟨Bool.and_eq_true_iff.mpr ⟨validText_ascii hn h.1, validUnicode_ascii hn h.2.1⟩, validMembers_ascii hn h.2.2⟩

end

theorem strictHooks_keeps : strictHooks.Keeps := by
  intro l hl
  have hd := dict_eq hl
  show (if (l.map (·.1)).Nodup then Except.ok (Value.obj (dict l)) else _) = _
  rw [hd, if_pos (hd ▸ dict_nodup l)]

/-- An object of ASCII texts is read back from its bytes. -/
theorem parseStrictJson_bytes (hn : ∀ t : Text, t.all (· < 0x80) → nfc t = true) {l : List (Text × Doc)}
    (ha : Ascii (.obj l : Doc)) (ho : Ordered (.obj l : Doc)) :
    parseStrictJson nfc (Doc.bytes (.obj l)) = .ok (.obj l) := by
  have hp := ha.plain ho
  obtain ⟨t, ht⟩ := @dumps_plain _ some (.obj l : Doc) hp
  have hbrace : ∃ u, t = '{'.toNat :: u := by
    rw [dumps] at ht
    obtain ⟨ms, -, rfl⟩ := Option.map_eq_some_iff.mp ht
    exact ⟨_, rfl⟩
  obtain ⟨u, rfl⟩ := hbrace
  have hbom : ¬[0xef, 0xbb, 0xbf] <+: encode ('{'.toNat :: u) := by
    rw [show encode ('{'.toNat :: u) = 0x7b :: encode u from rfl]
    intro h
    exact absurd (List.cons_prefix_cons.mp h).1 (by decide)
  rw [bytes_eq ht, parseStrictJson, if_neg hbom, decode_encode (dumps_scalar _ hp ht)]
  simp only [loads_dumps strictHooks_keeps hp ht, validUnicode_ascii hn ha, if_true]

end Unicode

/-! ## `accept` on both sides -/

theorem Role.other_expects (r : Role) (stage : Nat) : r.other.expectsIncoming stage ↔ ¬r.expectsIncoming stage := by
  cases r <;> simp only [Role.other, Role.expectsIncoming] <;> omega

section Accept

variable {s peer : SessionState} {now now' : Rat} {f : Frame}

theorem handshake_matching (hm : Matching s peer now') (hlt : s.stage < 4) {r : Option String × Option String × Nat}
    (h : handshake s now f False = .ok r) : handshake peer now' f True = .ok r := by
  have htime : ¬now' - peer.started > 5 := by
    have := hm.inTime (hm.stage ▸ hlt)
    exact Rat.not_lt.mpr this
  unfold handshake at h ⊢
  rw [if_neg htime]
  split at h
  · cases h
  split at h
  · cases h
  rename_i hturn
  have hturn' : ¬(handshakeTypes[peer.stage]? ≠ some f.messageType ∨ ¬(True ↔ peer.role.expectsIncoming peer.stage)) := by
    rw [hm.stage, hm.role, Role.other_expects]
    tauto
  rw [if_neg hturn', hm.stage, hm.clientNonce, hm.serverNonce]
  exact h

theorem advance_matching (hm : Matching s peer now') {r : Option String × Option String × Nat}
    (h : advance s now f False = .ok r) : advance peer now' f True = .ok r := by
  unfold advance at h ⊢
  rw [hm.stage]
  split at h
  · rename_i hlt
    rw [if_pos hlt]
    exact handshake_matching hm hlt h
  · rename_i hlt
    rw [if_neg hlt, hm.clientNonce, hm.serverNonce]
    exact h

/-- What the sender's state takes as sent the peer's takes as received. -/
theorem accept_matching (hm : Matching s peer now') {s' : SessionState} (h : accept s now f False = (s', .ok ())) :
    accept peer now' f True = (peer.receives s', .ok ()) := by
  have hdir : peer.role.incoming = s.role.outgoing := by rw [hm.role, Role.incoming_eq, Role.other_other]
  unfold accept at h ⊢
  simp only [if_false, if_true] at h ⊢
  rw [hm.sessionId, hdir, hm.counter, hm.runId]
  split at h
  · cases h
  rename_i hmeant
  rw [if_neg hmeant]
  split at h
  · cases h
  rename_i hrun
  rw [if_neg hrun]
  cases ha : advance s now f False with
  | error e => rw [ha] at h; cases h
  | ok r =>
    rw [ha] at h
    rw [advance_matching hm ha, SessionState.receives, hm.sessionId, hm.runId, hm.counter]
    cases h
    rfl

/-- `accept` reads no member that taking the mac away changes. -/
theorem ofDoc_content (v : Doc) : Frame.ofDoc (content v) = Frame.ofDoc v := by
  have hfield : ∀ k, text k ≠ text "mac" → field (content v) k = field v k := fun k hk => lookup_without hk _
  have hne : ∀ k ∈ ["session_id", "direction", "counter", "message_type", "body"], text k ≠ text "mac" := by
    simp only [ne_eq, text_eq_iff]
    decide
  simp only [List.forall_mem_cons] at hne
  obtain ⟨h1, h2, h3, h4, h5, -⟩ := hne
  simp only [Frame.ofDoc, textAt, hfield _ h1, hfield _ h2, hfield _ h3, hfield _ h4, hfield _ h5]

end Accept

/-! ## What is sent is verified -/

variable {C : Codec}

/-- What `encode_frame` returns is parsed, validated and authenticated. -/
theorem encodeFrame_ok {frame : Doc} {data : List UInt8} (hobj : (View.object frame).isSome) (ho : Ordered frame)
    (h : C.encodeFrame frame = .ok data) :
    data.length ≤ 262144 ∧ C.key.length = 32 ∧ content (withMac frame (C.mac frame)) = frame ∧
      parseStrictJson C.nfc data = .ok (withMac frame (C.mac frame)) ∧
      validateFrame some C.raw (withMac frame (C.mac frame)) = true ∧
      textAt (withMac frame (C.mac frame)) "mac" = some (C.mac frame) := by
  obtain ⟨l, rfl⟩ : ∃ l, frame = .obj l := by
    cases frame with
    | obj l => exact ⟨l, rfl⟩
    | _ => cases hobj
  unfold Codec.encodeFrame at h
  split at h
  · cases h
  rename_i hkey
  obtain ⟨hlen, hmac⟩ := not_or.mp hkey
  split at h
  · cases h
  rename_i hzeros
  cases h
  have hvalid := validate_withMac (b := C.mac (.obj l)) ho hmac zeros_hex64 (hex_hex64 _) (by simpa using hzeros)
  have hord := withMac_ordered (a := C.mac (.obj l)) ho
  obtain ⟨he, hraw, hc⟩ := validateFrame_iff.mp hvalid
  have hascii := ascii_of_envelope hord.distinct he fun o hm => C.raw_ascii o (hraw o hm)
  have hmem : ∀ m ∈ l ++ [(text "mac", .str (C.mac (.obj l)))], m ∈ update l (text "mac") (.str (C.mac (.obj l))) :=
    fun m hm => (update_perm ho.1 hmac _).mem_iff.mpr hm
  refine ⟨?_, not_not.mp hlen, ?_, ?_, hvalid, ?_⟩
  · obtain ⟨t, ht⟩ := @dumps_plain _ some _ (hascii.plain hord)
    rw [consistent, Bool.and_eq_true, dumpedSize, ht] at hc
    rw [bytes_eq ht]
    exact of_decide_eq_true hc.2
  · refine congrArg Value.obj (without_update ho.1 (fun m hm => ?_) hmac _)
    exact scalar_ascii (asciiMembers_iff.mp hascii m (hmem m (List.mem_append_left _ hm))).1
  · exact parseStrictJson_bytes C.nfc_ascii hascii hord
  · have hfield : field (withMac (.obj l) (C.mac (.obj l))) "mac" = some (.str (C.mac (.obj l))) :=
      field_of_mem hord.distinct (hmem _ (by simp))
    rw [textAt, hfield]
    rfl

theorem doc_ordered (s : SessionState) (messageType : Text) (body : JsonValue) : Ordered (s.doc messageType body.doc) := by
  refine ⟨dict_dict _, orderedMembers_iff.mpr fun m hm => ?_⟩
  have hm := dict_mem hm
  simp only [List.map_cons, List.map_nil, List.mem_cons, List.not_mem_nil, or_false] at hm
  rcases hm with rfl | rfl | rfl | rfl | rfl | rfl
  any_goals trivial
  exact body.ordered

theorem acceptDoc_rejected {s s' : SessionState} {now : Rat} {v : Doc} {incoming : Prop} [Decidable incoming] {e : SessionError}
    (h : acceptDoc s now v incoming = (s', .error e)) : s' = s := by
  unfold acceptDoc at h
  cases hf : Frame.ofDoc v with
  | none =>
    rw [hf] at h
    exact (congrArg Prod.fst h).symm
  | some f =>
    simp only [hf] at h
    rcases accept_cases s now f incoming with ⟨e', he⟩ | ⟨s'', hs, -⟩
    · rw [he] at h
      exact (congrArg Prod.fst h).symm
    · rw [hs] at h
      cases congrArg Prod.snd h

theorem acceptDoc_matching {s s' peer : SessionState} {now now' : Rat} {v w : Doc} (hm : Matching s peer now')
    (hw : Frame.ofDoc w = Frame.ofDoc v) (h : acceptDoc s now v False = (s', .ok ())) :
    acceptDoc peer now' w True = (peer.receives s', .ok ()) := by
  unfold acceptDoc at h ⊢
  rw [hw]
  cases hf : Frame.ofDoc v with
  | none =>
    simp only [hf] at h
    cases congrArg Prod.snd h
  | some f =>
    simp only [hf] at h
    exact accept_matching hm h

/-- What `accept` sees of the frame `send` builds. -/
theorem ofDoc_doc (s : SessionState) {messageType : Text} {t : MessageType} (ht : MessageType.ofText messageType = some t) (body : Doc) :
    ∃ b, Frame.ofDoc (s.doc messageType body) = some (s.frame t b) ∧ b.runId = (textAt body "run_id").map ofText ∧
      b.clientNonce = (textAt body "client_nonce").map ofText ∧ b.serverNonce = (textAt body "server_nonce").map ofText := by
  have hfield : ∀ k v, (k, v) ∈ [("protocol", str "BH_OFFLINE_WIRE_V1"), ("session_id", str s.sessionId),
      ("direction", str s.role.outgoing.name), ("counter", .str (decimal (s.outCounter + 1))), ("message_type", .str messageType),
      ("body", body)] → field (s.doc messageType body) k = some v := by
    intro k v hm
    obtain ⟨m, hr, hv⟩ := lookup_record (by simp) hm
    rw [SessionState.doc, hr]
    exact hv
  have htext : ∀ k u, (k, .str u) ∈ [("protocol", str "BH_OFFLINE_WIRE_V1"), ("session_id", str s.sessionId),
      ("direction", str s.role.outgoing.name), ("counter", .str (decimal (s.outCounter + 1))), ("message_type", .str messageType),
      ("body", body)] → textAt (s.doc messageType body) k = some u := by
    intro k u hm
    rw [textAt, hfield k _ hm]
    rfl
  have hdir : ∀ d : Direction, Direction.ofText (text d.name) = some d := by
    intro d
    cases d <;> simp [Direction.ofText, Direction.name, text_eq_iff]
  have hcount : decimalText (decimal (s.outCounter + 1)) = plain (s.outCounter + 1) := decimalText_decimal (s.outCounter + 1)
  have hid : ofText (text s.sessionId) = s.sessionId := ofNat_text _
  refine ⟨⟨(textAt body "run_id").map ofText, (textAt body "client_nonce").map ofText, (textAt body "server_nonce").map ofText,
    ofText ((dumps some body).getD [])⟩, ?_, rfl, rfl, rfl⟩
  rw [Frame.ofDoc, htext "session_id" (text s.sessionId) (by simp [str]), htext "direction" (text s.role.outgoing.name) (by simp [str]),
    htext "counter" (decimal (s.outCounter + 1)) (by simp), htext "message_type" messageType (by simp),
    hfield "body" body (by simp)]
  simp only [Option.bind_eq_bind, Option.bind_some, hdir, ht, hcount, hid, SessionState.frame]

/-- A failed send leaves the state. What a send returns, a peer whose state matches verifies
    and returns with its mac; it counts the frame and is where the sender is. -/
theorem send_verified (C : Codec) (s : SessionState) (now : Rat) (messageType : Text) (body : JsonValue) :
    (∀ e, (C.send s now messageType body).2 = .error e → (C.send s now messageType body).1 = s) ∧
    ∀ s' data, C.send s now messageType body = (s', .ok data) → ∀ peer now', Matching s peer now' →
      C.verifyFrame peer now' data = (peer.receives s',
        .ok (withMac (s.doc messageType body.doc) (C.mac (s.doc messageType body.doc)))) := by
  constructor
  · intro e h
    unfold Codec.send at h ⊢
    cases hf : C.encodeFrame (s.doc messageType body.doc) with
    | error e' => rfl
    | ok data =>
      rw [hf] at h
      cases ha : acceptDoc s now (s.doc messageType body.doc) False with
      | mk s' r =>
        cases r with
        | error e' => exact acceptDoc_rejected ha
        | ok u =>
          rw [ha] at h
          cases h
  · intro s' data h peer now' hm
    unfold Codec.send at h
    cases hf : C.encodeFrame (s.doc messageType body.doc) with
    | error e' => rw [hf] at h; cases congrArg Prod.snd h
    | ok encoded =>
      rw [hf] at h
      cases ha : acceptDoc s now (s.doc messageType body.doc) False with
      | mk s'' r =>
        rw [ha] at h
        cases r with
        | error e' => cases congrArg Prod.snd h
        | ok u =>
          cases h
          obtain ⟨hsize, hkey, hcontent, hparse, hvalid, hmac⟩ := encodeFrame_ok rfl (doc_ordered s messageType body) hf
          -- the peer accepts the frame without its mac, and so the one with it
          have hread : Frame.ofDoc (withMac (s.doc messageType body.doc) (C.mac (s.doc messageType body.doc))) =
              Frame.ofDoc (s.doc messageType body.doc) := by
            rw [← ofDoc_content, hcontent]
          have haccept := acceptDoc_matching hm hread ha
          have hobj : ¬((View.object (withMac (s.doc messageType body.doc) (C.mac (s.doc messageType body.doc)))).isNone ||
              !validateFrame some C.raw (withMac (s.doc messageType body.doc) (C.mac (s.doc messageType body.doc)))) = true := by
            rw [hvalid]
            exact Bool.false_ne_true
          unfold Codec.verifyFrame
          rw [if_neg (by omega)]
          simp only [hparse]
          rw [if_neg hobj, if_neg (by rw [hmac, hcontent]; exact fun h => h rfl), haccept]

/-! ## A frame sent and verified -/

section Pings

/-- The codec on the frame of `pingBody`. -/
def pingCodec : Codec where
  key := List.replicate 32 7
  hmac _ _ := 0xf01f07d10bed9d7a961f282018783fe9ddd6e2b4914ed09907ca6bbb1711d390
  raw _ := false
  nfc t := t.all (· < 0x80)
  raw_ascii _ h := by cases h
  nfc_ascii _ h := h

def pingValue : JsonValue where
  doc := record [("nonce", str nonceA), ("monotonic_us", str "0")]
  ordered := ⟨dict_dict _, orderedMembers_iff.mpr fun m hm => by
    have hm := dict_mem hm
    simp only [List.map_cons, List.map_nil, List.mem_cons, List.not_mem_nil, or_false] at hm
    rcases hm with rfl | rfl <;> trivial⟩

/-- A side after its handshake. -/
def readySide (role : Role) : SessionState :=
  ⟨"00000000-0000-4000-8000-000000000000", "00000000-0000-4000-8000-000000000001", role, 0, 4, 0, 0, some nonceA, some nonceB⟩

theorem ping_matching : Matching (readySide .client) (readySide .backend) 9 :=
  ⟨rfl, rfl, rfl, rfl, rfl, rfl, rfl, fun h => absurd h (by decide)⟩

theorem ping_encoded : ∃ data, pingCodec.encodeFrame ((readySide .client).doc (text "PING") pingValue.doc) = .ok data := by
  have hmac : text "mac" ∉ (members ((readySide .client).doc (text "PING") pingValue.doc)).map (·.1) := by
    simp only [readySide, SessionState.doc, pingValue, record, str, nonceA, Role.outgoing, Direction.name, List.map_cons, List.map_nil,
      text, String.reduceToList]
    decide
  have hvalid : validateFrame some pingCodec.raw (withMac ((readySide .client).doc (text "PING") pingValue.doc) (text zeros)) = true := by
    refine validateFrame_iff.mpr ⟨envelope_iff.mpr ⟨⟨"CLIENT_TO_BACKEND", "PING", pingBody⟩, by simp [branches], ?_⟩, ?_⟩
    · simp only [withMac, readySide, SessionState.doc, pingValue, record, str, nonceA, zeros, Role.outgoing, Direction.name,
        List.map_cons, List.map_nil, Branch.parts, pingBody, uuid, nonce, text, String.reduceToList]
      decide
    · simp only [withMac, readySide, SessionState.doc, pingValue, record, str, nonceA, zeros, Role.outgoing, Direction.name,
        List.map_cons, List.map_nil, text, String.reduceToList]
      decide +kernel
  unfold Codec.encodeFrame
  rw [if_neg (by simp [pingCodec, hmac]), if_neg (by rw [hvalid]; simp)]
  exact ⟨_, rfl⟩

theorem send_verified_ping : ∃ s' data, pingCodec.send (readySide .client) 9 (text "PING") pingValue = (s', .ok data) ∧
    (pingCodec.verifyFrame (readySide .backend) 9 data).1.inCounter = 1 ∧
    ∃ frame, (pingCodec.verifyFrame (readySide .backend) 9 data).2 = .ok frame := by
  obtain ⟨data, hdata⟩ := ping_encoded
  have haccept : ∃ s', acceptDoc (readySide .client) 9 ((readySide .client).doc (text "PING") pingValue.doc) False = (s', .ok ()) := by
    have htype : MessageType.ofText (text "PING") = some .ping := by
      simp [MessageType.ofText, MessageType.name, text_eq_iff]
    obtain ⟨b, hb, hrun, -⟩ := ofDoc_doc (readySide .client) htype pingValue.doc
    have hnone : b.runId = none := by
      have : textAt pingValue.doc "run_id" = none := by
        simp only [pingValue, record, str, nonceA, List.map_cons, List.map_nil, text, String.reduceToList]
        decide
      rw [hrun, this]
      rfl
    unfold acceptDoc
    simp only [hb]
    unfold accept
    simp [SessionState.frame, hnone, advance, readySide, handshakeTypes]
  obtain ⟨s', hs⟩ := haccept
  have hsend : pingCodec.send (readySide .client) 9 (text "PING") pingValue = (s', .ok data) := by
    rw [Codec.send, hdata]
    simp only [hs]
  have h := (send_verified pingCodec (readySide .client) 9 (text "PING") pingValue).2 s' data hsend _ 9 ping_matching
  refine ⟨s', data, hsend, ?_, ?_⟩
  · rw [h]
    rfl
  · rw [h]
    exact ⟨_, rfl⟩

end Pings

end BettingHelper.Wire
