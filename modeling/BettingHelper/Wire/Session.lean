/-
  BettingHelper.Wire.Session — one authenticated session of the offline wire
  (`offline_protocol.SessionState` and its twin in extension/src/offline/protocol.ts).

  A frame is its content: the members `accept` reads, and the rest of the body as it is. A
  counter is a text the frame schema accepts. What a side's schema accepts
  (`validate_frame`), the parser and the HMAC are parameters.

  The network (`Step`) loses, repeats, delays and reorders what was sent, and delivers
  anything else it likes, but a frame whose mac verifies was sent by one of the two sides
  or is of another session. The extension's `send` awaits the HMAC before it calls
  `accept`: the frame may have been built in an earlier state (`Step.resume`).

  Proved (`session_safe`): what a side has accepted is a prefix of what the other has
  sent; both hold the same two nonces, and different ones, once both are ready; a
  rejected frame leaves the state.
-/

import BettingHelper.Ingest.Observation

namespace BettingHelper.Wire

open BettingHelper.Ingest

inductive Role where
  | client
  | backend
  deriving DecidableEq, Repr

inductive Direction where
  | clientToBackend
  | backendToClient
  deriving DecidableEq, Repr

inductive MessageType where
  | hello
  | welcome
  | ready
  | readyAck
  | batch
  | ack
  | nack
  | ping
  | pong
  | stop
  deriving DecidableEq, Repr

/-- The members of a body that `accept` looks for, and the others. -/
structure FrameBody where
  runId : Option String
  clientNonce : Option String
  serverNonce : Option String
  rest : String
  deriving DecidableEq, Repr

/-- A frame without its mac. -/
structure Frame where
  sessionId : String
  direction : Direction
  counter : DecimalText
  messageType : MessageType
  body : FrameBody
  deriving DecidableEq, Repr

inductive SessionError where
  /-- `E_OFFLINE_KEY_OR_FRAME` -/
  | keyOrFrame
  /-- `E_OFFLINE_FRAME_SIZE_OR_KEY` -/
  | frameSizeOrKey
  /-- `E_OFFLINE_SCHEMA` -/
  | schema
  /-- `E_OFFLINE_MAC` -/
  | mac
  /-- `E_OFFLINE_SESSION_COUNTER` -/
  | sessionCounter
  /-- `E_OFFLINE_SOURCE_BINDING` -/
  | sourceBinding
  /-- `E_OFFLINE_HANDSHAKE_TIMEOUT` -/
  | handshakeTimeout
  /-- `E_OFFLINE_HANDSHAKE_ORDER` -/
  | handshakeOrder
  /-- `E_OFFLINE_NONCE` -/
  | nonce
  deriving DecidableEq, Repr

/-- Times are seconds of a monotonic clock. -/
structure SessionState where
  sessionId : String
  runId : String
  role : Role
  started : Rat
  stage : Nat
  inCounter : Nat
  outCounter : Nat
  clientNonce : Option String
  serverNonce : Option String
  deriving DecidableEq, Repr

def SessionState.new (sessionId runId : String) (role : Role) (started : Rat) : SessionState :=
  ⟨sessionId, runId, role, started, 0, 0, 0, none, none⟩

def SessionState.ready (s : SessionState) : Prop := s.stage = 4
  deriving Decidable

def base64Alphabet : List Char := "ABCDEFGHIJKLMNOPQRSTUVWXYZabcdefghijklmnopqrstuvwxyz0123456789-_".toList

/-- The text is the one `urlsafe_b64encode` makes of some 32 bytes, without its `=`: 43
    digits, the last of which spells two bits that are zero. -/
def encodes32 (nonce : String) : Prop :=
  nonce.toList.length = 43 ∧ (∀ c ∈ nonce.toList, c ∈ base64Alphabet) ∧
    ∀ c ∈ nonce.toList.getLast?, base64Alphabet.idxOf c % 4 = 0

instance (nonce : String) : Decidable (encodes32 nonce) :=
  @instDecidableAnd _ _ _ (@instDecidableAnd _ _ (List.decidableBAll _ _) (Option.decidableForallMem _))

def handshakeTypes : List MessageType := [.hello, .welcome, .ready, .readyAck]

def Role.outgoing : Role → Direction
  | .client => .clientToBackend
  | .backend => .backendToClient

def Role.incoming : Role → Direction
  | .client => .backendToClient
  | .backend => .clientToBackend

/-- The handshake stages a side expects to receive in. -/
def Role.expectsIncoming (r : Role) (stage : Nat) : Prop :=
  match r with
  | .client => stage % 2 = 1
  | .backend => stage % 2 = 0

instance (r : Role) (stage : Nat) : Decidable (r.expectsIncoming stage) := by
  unfold Role.expectsIncoming
  split <;> infer_instance

/-- The nonces and the stage after a handshake frame. -/
def handshake (s : SessionState) (now : Rat) (frame : Frame) (incoming : Prop) [Decidable incoming] :
    Except SessionError (Option String × Option String × Nat) :=
  if now - s.started > 5 then .error .handshakeTimeout
  else if handshakeTypes[s.stage]? ≠ some frame.messageType ∨ ¬(incoming ↔ s.role.expectsIncoming s.stage) then
    .error .handshakeOrder
  else if (∃ n ∈ frame.body.clientNonce, ¬encodes32 n) ∨ ∃ n ∈ frame.body.serverNonce, ¬encodes32 n then .error .nonce
  else if s.stage = 0 then
    match frame.body.clientNonce with
    | none => .error .schema   -- no schema lets a handshake body without its nonces through
    | some client => .ok (some client, s.serverNonce, 1)
  else if frame.body.clientNonce ≠ s.clientNonce then .error .nonce
  else if s.stage = 1 then
    if frame.body.serverNonce = s.clientNonce then .error .nonce
    else
      match frame.body.serverNonce with
      | none => .error .schema
      | some server => .ok (s.clientNonce, some server, 2)
  else if frame.body.serverNonce ≠ s.serverNonce then .error .nonce
  else .ok (s.clientNonce, s.serverNonce, s.stage + 1)

/-- The nonces and the stage after a frame. -/
def advance (s : SessionState) (now : Rat) (frame : Frame) (incoming : Prop) [Decidable incoming] :
    Except SessionError (Option String × Option String × Nat) :=
  if s.stage < 4 then handshake s now frame incoming
  else if s.stage ≠ 4 ∨ frame.messageType ∈ handshakeTypes then .error .handshakeOrder
  else .ok (s.clientNonce, s.serverNonce, if frame.messageType = .stop then 5 else s.stage)

/-- `SessionState.accept`: the state it leaves, and whether it raises. -/
def accept (s : SessionState) (now : Rat) (frame : Frame) (incoming : Prop) [Decidable incoming] :
    SessionState × Except SessionError Unit :=
  let direction := if incoming then s.role.incoming else s.role.outgoing
  let expectedCounter := (if incoming then s.inCounter else s.outCounter) + 1
  if frame.sessionId ≠ s.sessionId ∨ frame.direction ≠ direction ∨ frame.counter ≠ plain expectedCounter then
    (s, .error .sessionCounter)
  else if ∃ r ∈ frame.body.runId, r ≠ s.runId then (s, .error .sourceBinding)
  else
    match advance s now frame incoming with
    | .error e => (s, .error e)
    | .ok (client, server, stage) =>
      let s := { s with clientNonce := client, serverNonce := server, stage := stage }
      (if incoming then { s with inCounter := expectedCounter } else { s with outCounter := expectedCounter }, .ok ())

/-! ## Frames on the wire -/

structure Channel where
  key : List UInt8
  /-- The HMAC of a frame's canonical bytes, in hex. -/
  hmac : List UInt8 → Frame → String
  /-- `validate_frame` of a side, on the frame with its mac. -/
  valid : Role → Frame → String → Prop
  validDecidable : ∀ r f m, Decidable (valid r f m)
  /-- `rfc8785.dumps`, of the frame with its mac. -/
  dumps : Frame → String → List UInt8
  /-- `parse_strict_json`, when what it returns has the members of a frame. -/
  parse : List UInt8 → Option (Frame × String)

instance (C : Channel) (r : Role) (f : Frame) (m : String) : Decidable (C.valid r f m) := C.validDecidable r f m

def zeros : String := "0000000000000000000000000000000000000000000000000000000000000000"

def encodeFrame (C : Channel) (r : Role) (frame : Frame) : Except SessionError (List UInt8) :=
  if C.key.length ≠ 32 then .error .keyOrFrame
  else if ¬C.valid r frame zeros then .error .schema
  else .ok (C.dumps frame (C.hmac C.key frame))

/-- The frame `send` builds. -/
def SessionState.frame (s : SessionState) (messageType : MessageType) (body : FrameBody) : Frame :=
  ⟨s.sessionId, s.role.outgoing, plain (s.outCounter + 1), messageType, body⟩

def send (C : Channel) (s : SessionState) (now : Rat) (messageType : MessageType) (body : FrameBody) :
    SessionState × Except SessionError (List UInt8) :=
  match encodeFrame C s.role (s.frame messageType body) with
  | .error e => (s, .error e)
  | .ok encoded =>
    match accept s now (s.frame messageType body) False with
    | (s, .error e) => (s, .error e)
    | (s, .ok ()) => (s, .ok encoded)

def verifyFrame (C : Channel) (s : SessionState) (now : Rat) (data : List UInt8) :
    SessionState × Except SessionError Frame :=
  if data.length > 262144 ∨ C.key.length ≠ 32 then (s, .error .frameSizeOrKey)
  else
    match C.parse data with
    | none => (s, .error .schema)
    | some (frame, mac) =>
      if ¬C.valid s.role frame mac then (s, .error .schema)
      else if mac ≠ C.hmac C.key frame then (s, .error .mac)
      else
        match accept s now frame True with
        | (s, .error e) => (s, .error e)
        | (s, .ok ()) => (s, .ok frame)

/-! ## Two sides and a network -/

/-- A side with the frames `send` has returned the bytes of and those `verify_frame` has
    returned. -/
structure Party where
  state : SessionState
  sent : List Frame
  accepted : List Frame

def Party.send (C : Channel) (p : Party) (now : Rat) (messageType : MessageType) (body : FrameBody) : Party :=
  match Wire.send C p.state now messageType body with
  | (s, .error _) => { p with state := s }
  | (s, .ok _) => { p with state := s, sent := p.sent ++ [p.state.frame messageType body] }

/-- What is left of the extension's `send` after its await. -/
def Party.resume (p : Party) (now : Rat) (frame : Frame) : Party :=
  match accept p.state now frame False with
  | (s, .error _) => { p with state := s }
  | (s, .ok ()) => { p with state := s, sent := p.sent ++ [frame] }

def Party.receive (C : Channel) (p : Party) (now : Rat) (data : List UInt8) : Party :=
  match verifyFrame C p.state now data with
  | (s, .error _) => { p with state := s }
  | (s, .ok frame) => { p with state := s, accepted := p.accepted ++ [frame] }

structure Net where
  client : Party
  backend : Party

def Net.party (n : Net) : Role → Party
  | .client => n.client
  | .backend => n.backend

def Net.set (n : Net) (r : Role) (p : Party) : Net :=
  match r with
  | .client => { n with client := p }
  | .backend => { n with backend := p }

/-- Both sides as constructed, at two times. -/
def Net.start (sessionId runId : String) (client backend : Rat) : Net :=
  ⟨⟨.new sessionId runId .client client, [], []⟩, ⟨.new sessionId runId .backend backend, [], []⟩⟩

/-- The bytes hold no forged frame of the session. -/
def Net.Unforged (C : Channel) (sessionId : String) (n : Net) (data : List UInt8) : Prop :=
  ∀ frame ∈ C.parse data, frame.2 = C.hmac C.key frame.1 →
    frame.1.sessionId ≠ sessionId ∨ frame.1 ∈ n.client.sent ∨ frame.1 ∈ n.backend.sent

instance (C : Channel) (sessionId : String) (n : Net) (data : List UInt8) : Decidable (n.Unforged C sessionId data) := by
  unfold Net.Unforged
  infer_instance

inductive Step (C : Channel) (sessionId : String) : Net → Net → Prop
  | send (n : Net) (r : Role) (now : Rat) (messageType : MessageType) (body : FrameBody) :
      Step C sessionId n (n.set r ((n.party r).send C now messageType body))
  | resume (n : Net) (r : Role) (now : Rat) (frame : Frame) :
      Step C sessionId n (n.set r ((n.party r).resume now frame))
  | deliver (n : Net) (r : Role) (now : Rat) (data : List UInt8) : n.Unforged C sessionId data →
      Step C sessionId n (n.set r ((n.party r).receive C now data))

inductive Reach (C : Channel) (sessionId runId : String) : Net → Prop
  | start (client backend : Rat) : Reach C sessionId runId (.start sessionId runId client backend)
  | step {n n' : Net} : Reach C sessionId runId n → Step C sessionId n n' → Reach C sessionId runId n'

/-! ## What `accept` does -/

/-- A handshake frame that passes, by the stage it passes in. -/
inductive Greeted (s : SessionState) (f : Frame) : Option String → Option String → Nat → Prop
  | hello (c : String) : s.stage = 0 → f.body.clientNonce = some c → Greeted s f (some c) s.serverNonce 1
  | welcome (v : String) : s.stage = 1 → f.body.serverNonce = some v → some v ≠ s.clientNonce →
      Greeted s f s.clientNonce (some v) 2
  | echo : 2 ≤ s.stage → Greeted s f s.clientNonce s.serverNonce (s.stage + 1)

theorem handshake_ok {s : SessionState} {now : Rat} {f : Frame} {incoming : Prop} [Decidable incoming]
    {c v : Option String} {k : Nat} (h : handshake s now f incoming = .ok (c, v, k)) :
    (incoming ↔ s.role.expectsIncoming s.stage) ∧ Greeted s f c v k := by
  unfold handshake at h
  split at h
  · cases h
  split at h
  · cases h
  rename_i hturn
  obtain ⟨-, hturn⟩ := not_or.mp hturn
  refine ⟨not_not.mp hturn, ?_⟩
  split at h
  · cases h
  split at h
  · rename_i h0
    cases hc : f.body.clientNonce with
    | none => rw [hc] at h; cases h
    | some c =>
      rw [hc] at h
      cases h
      exact .hello c h0 hc
  split at h
  · cases h
  split at h
  · rename_i h1
    split at h
    · cases h
    rename_i hne hdiff
    cases hv : f.body.serverNonce with
    | none => rw [hv] at h; cases h
    | some v =>
      rw [hv] at h
      cases h
      exact .welcome v h1 hv (by rw [← hv]; exact hdiff)
  split at h
  · cases h
  cases h
  exact .echo (by omega)

theorem advance_ok {s : SessionState} {now : Rat} {f : Frame} {incoming : Prop} [Decidable incoming]
    {c v : Option String} {k : Nat} (h : advance s now f incoming = .ok (c, v, k)) :
    (s.stage < 4 ∧ (incoming ↔ s.role.expectsIncoming s.stage) ∧ Greeted s f c v k) ∨
      s.stage = 4 ∧ 4 ≤ k ∧ c = s.clientNonce ∧ v = s.serverNonce := by
  unfold advance at h
  split at h
  · rename_i hlt
    exact .inl ⟨hlt, handshake_ok h⟩
  split at h
  · cases h
  rename_i hready
  obtain ⟨h4, -⟩ := not_or.mp hready
  cases h
  refine .inr ⟨not_not.mp h4, ?_, rfl, rfl⟩
  split <;> omega

/-- A frame `accept` took: where it was for, and the state after it. -/
structure Took (s : SessionState) (f : Frame) (incoming : Prop) [Decidable incoming] (s' : SessionState) : Prop where
  sessionId : f.sessionId = s.sessionId
  direction : f.direction = if incoming then s.role.incoming else s.role.outgoing
  counter : f.counter = plain ((if incoming then s.inCounter else s.outCounter) + 1)
  same : s'.sessionId = s.sessionId ∧ s'.role = s.role
  inCounter : s'.inCounter = if incoming then s.inCounter + 1 else s.inCounter
  outCounter : s'.outCounter = if incoming then s.outCounter else s.outCounter + 1
  advanced : (s.stage < 4 ∧ (incoming ↔ s.role.expectsIncoming s.stage) ∧
      Greeted s f s'.clientNonce s'.serverNonce s'.stage) ∨
    s.stage = 4 ∧ 4 ≤ s'.stage ∧ s'.clientNonce = s.clientNonce ∧ s'.serverNonce = s.serverNonce

theorem accept_cases (s : SessionState) (now : Rat) (f : Frame) (incoming : Prop) [Decidable incoming] :
    (∃ e, accept s now f incoming = (s, .error e)) ∨
      ∃ s', accept s now f incoming = (s', .ok ()) ∧ Took s f incoming s' := by
  unfold accept
  dsimp only
  by_cases hmeant : f.sessionId ≠ s.sessionId ∨
      f.direction ≠ (if incoming then s.role.incoming else s.role.outgoing) ∨
      f.counter ≠ plain ((if incoming then s.inCounter else s.outCounter) + 1)
  · rw [if_pos hmeant]
    exact .inl ⟨_, rfl⟩
  rw [if_neg hmeant]
  simp only [not_or, ne_eq, not_not] at hmeant
  obtain ⟨hid, hdir, hcount⟩ := hmeant
  by_cases hrun : ∃ r ∈ f.body.runId, r ≠ s.runId
  · rw [if_pos hrun]
    exact .inl ⟨_, rfl⟩
  rw [if_neg hrun]
  cases hnext : advance s now f incoming with
  | error e => exact .inl ⟨_, rfl⟩
  | ok next =>
    obtain ⟨c, v, k⟩ := next
    refine .inr ⟨_, rfl, ?_⟩
    have hadvanced := advance_ok hnext
    by_cases hin : incoming
    · simp only [hin, if_true] at hdir hcount ⊢
      exact ⟨hid, hdir, hcount, ⟨rfl, rfl⟩, rfl, rfl, by simpa only [hin] using hadvanced⟩
    · simp only [hin, if_false] at hdir hcount ⊢
      exact ⟨hid, hdir, hcount, ⟨rfl, rfl⟩, rfl, rfl, by simpa only [hin] using hadvanced⟩

theorem send_cases (C : Channel) (s : SessionState) (now : Rat) (t : MessageType) (b : FrameBody) :
    (∃ e, send C s now t b = (s, .error e)) ∨
      ∃ s' data, send C s now t b = (s', .ok data) ∧ Took s (s.frame t b) False s' := by
  unfold send
  split
  · exact .inl ⟨_, rfl⟩
  · rename_i data hdata
    rcases accept_cases s now (s.frame t b) False with ⟨e, he⟩ | ⟨s', hs', htook⟩
    · rw [he]
      exact .inl ⟨e, rfl⟩
    · rw [hs']
      exact .inr ⟨s', data, rfl, htook⟩

theorem verifyFrame_cases (C : Channel) (s : SessionState) (now : Rat) (data : List UInt8) :
    (∃ e, verifyFrame C s now data = (s, .error e)) ∨
      ∃ s' f, verifyFrame C s now data = (s', .ok f) ∧ C.parse data = some (f, C.hmac C.key f) ∧
        Took s f True s' := by
  unfold verifyFrame
  split
  · exact .inl ⟨_, rfl⟩
  cases hparse : C.parse data with
  | none => exact .inl ⟨_, rfl⟩
  | some parsed =>
    obtain ⟨f, mac⟩ := parsed
    dsimp only
    split
    · exact .inl ⟨_, rfl⟩
    split
    · exact .inl ⟨_, rfl⟩
    rename_i hmac
    have hmac : mac = C.hmac C.key f := not_not.mp hmac
    rcases accept_cases s now f True with ⟨e, he⟩ | ⟨s', hs', htook⟩
    · rw [he]
      exact .inl ⟨e, rfl⟩
    · rw [hs', hmac]
      exact .inr ⟨s', f, rfl, rfl, htook⟩

/-! ## One side -/

/-- The frames of the client, as far as a side knows them. -/
def Party.fromClient (r : Role) (p : Party) : List Frame :=
  match r with
  | .client => p.sent
  | .backend => p.accepted

def Party.fromBackend (r : Role) (p : Party) : List Frame :=
  match r with
  | .client => p.accepted
  | .backend => p.sent

/-- The nonces a side holds are those of the first frame each way. -/
structure Party.Greets (r : Role) (p : Party) : Prop where
  silentClient : p.state.stage = 0 → p.fromClient r = []
  silentBackend : p.state.stage ≤ 1 → p.fromBackend r = [] ∧ p.state.serverNonce = none
  clientNonce : 1 ≤ p.state.stage →
    ∃ f c, (p.fromClient r)[0]? = some f ∧ f.body.clientNonce = some c ∧ p.state.clientNonce = some c
  serverNonce : 2 ≤ p.state.stage →
    ∃ f v, (p.fromBackend r)[0]? = some f ∧ f.body.serverNonce = some v ∧ p.state.serverNonce = some v ∧
      p.state.clientNonce ≠ some v

structure Party.Ok (sessionId : String) (r : Role) (p : Party) : Prop where
  session : p.state.sessionId = sessionId ∧ p.state.role = r
  accepted : p.state.inCounter = p.accepted.length
  sent : p.state.outCounter = p.sent.length
  numbered : ∀ i f, p.sent[i]? = some f →
    f.sessionId = sessionId ∧ f.direction = r.outgoing ∧ f.counter = plain (i + 1)
  greets : p.Greets r

/-- The side with one more frame. -/
def Party.take (p : Party) (f : Frame) (incoming : Bool) (s : SessionState) : Party :=
  if incoming then { p with state := s, accepted := p.accepted ++ [f] } else { p with state := s, sent := p.sent ++ [f] }

@[simp] theorem Party.take_state (p : Party) (f : Frame) (incoming : Bool) (s : SessionState) :
    (p.take f incoming s).state = s := by
  cases incoming <;> rfl

theorem Party.take_fromClient (r : Role) (p : Party) (f : Frame) (incoming : Bool) (s : SessionState) :
    (p.take f incoming s).fromClient r = if incoming ↔ r = .backend then p.fromClient r ++ [f] else p.fromClient r := by
  cases r <;> cases incoming <;> rfl

theorem Party.take_fromBackend (r : Role) (p : Party) (f : Frame) (incoming : Bool) (s : SessionState) :
    (p.take f incoming s).fromBackend r =
      if incoming ↔ r = .client then p.fromBackend r ++ [f] else p.fromBackend r := by
  cases r <;> cases incoming <;> rfl

theorem getElem?_append_of_some {α : Type} {l m : List α} {i : Nat} {a : α} (h : l[i]? = some a) :
    (l ++ m)[i]? = some a := by
  have hlt : i < l.length := (List.getElem?_eq_some_iff.mp h).1
  rw [List.getElem?_append_left hlt]
  exact h

/-- What was first stays first. -/
theorem Party.take_first (r : Role) (p : Party) (f : Frame) (incoming : Bool) (s : SessionState) {g : Frame} :
    ((p.fromClient r)[0]? = some g → ((p.take f incoming s).fromClient r)[0]? = some g) ∧
      ((p.fromBackend r)[0]? = some g → ((p.take f incoming s).fromBackend r)[0]? = some g) := by
  rw [Party.take_fromClient, Party.take_fromBackend]
  constructor
  · intro h
    split
    · exact getElem?_append_of_some h
    · exact h
  · intro h
    split
    · exact getElem?_append_of_some h
    · exact h

/-- In the handshake, the client speaks at the even stages. -/
theorem turn_client {r : Role} {stage : Nat} {incoming : Bool} (h : incoming ↔ r.expectsIncoming stage) :
    (incoming ↔ r = .backend) ↔ stage % 2 = 0 := by
  cases r <;> cases incoming <;> simp [Role.expectsIncoming] at h ⊢ <;> omega

theorem turn_backend {r : Role} {stage : Nat} {incoming : Bool} (h : incoming ↔ r.expectsIncoming stage) :
    (incoming ↔ r = .client) ↔ stage % 2 = 1 := by
  cases r <;> cases incoming <;> simp [Role.expectsIncoming] at h ⊢ <;> omega

/-- From stage 2 on a frame changes no nonce. -/
theorem Party.Greets.kept {r : Role} {p : Party} (hp : p.Greets r) (f : Frame) (incoming : Bool) {s : SessionState}
    (h2 : 2 ≤ p.state.stage) (h2' : 2 ≤ s.stage) (hc : s.clientNonce = p.state.clientNonce)
    (hv : s.serverNonce = p.state.serverNonce) : (p.take f incoming s).Greets r := by
  obtain ⟨g, c, hg, hgc, hpc⟩ := hp.clientNonce (by omega)
  obtain ⟨g', v, hg', hgv, hpv, hne⟩ := hp.serverNonce h2
  refine ⟨fun h => ?_, fun h => ?_, fun _ => ?_, fun _ => ?_⟩
  · rw [Party.take_state] at h
    omega
  · rw [Party.take_state] at h
    omega
  · rw [Party.take_state, hc]
    exact ⟨g, c, (Party.take_first r p f incoming s).1 hg, hgc, hpc⟩
  · rw [Party.take_state, hc, hv]
    exact ⟨g', v, (Party.take_first r p f incoming s).2 hg', hgv, hpv, hne⟩

theorem Party.Greets.taken {r : Role} {p : Party} (hp : p.Greets r) {f : Frame} {incoming : Bool} {s : SessionState}
    (hrole : p.state.role = r) (ht : Took p.state f incoming s) : (p.take f incoming s).Greets r := by
  rcases ht.advanced with ⟨-, hturn, hgreeted⟩ | ⟨h4, hk, hc, hv⟩
  · rw [hrole] at hturn
    have hturnC := turn_client hturn
    have hturnB := turn_backend hturn
    generalize hc : s.clientNonce = c at hgreeted
    generalize hv : s.serverNonce = v at hgreeted
    generalize hk : s.stage = k at hgreeted
    cases hgreeted with
    | hello c h0 hfc =>
      obtain ⟨hB, hnone⟩ := hp.silentBackend (by omega)
      have hfrom : (p.take f incoming s).fromClient r = [f] := by
        rw [Party.take_fromClient, if_pos (hturnC.mpr (by omega)), hp.silentClient h0]
        rfl
      have hback : (p.take f incoming s).fromBackend r = [] := by
        rw [Party.take_fromBackend, if_neg (fun h => by have := hturnB.mp h; omega), hB]
      refine ⟨fun h => ?_, fun _ => ?_, fun _ => ?_, fun h => ?_⟩
      · rw [Party.take_state] at h
        omega
      · rw [hback, Party.take_state, hv]
        exact ⟨rfl, hnone⟩
      · rw [hfrom, Party.take_state, hc]
        exact ⟨f, c, rfl, hfc, rfl⟩
      · rw [Party.take_state] at h
        omega
    | welcome v h1 hfv hne =>
      obtain ⟨g, c, hg, hgc, hpc⟩ := hp.clientNonce (by omega)
      have hback : (p.take f incoming s).fromBackend r = [f] := by
        rw [Party.take_fromBackend, if_pos (hturnB.mpr (by omega)), (hp.silentBackend (by omega)).1]
        rfl
      refine ⟨fun h => ?_, fun h => ?_, fun _ => ?_, fun _ => ?_⟩
      · rw [Party.take_state] at h
        omega
      · rw [Party.take_state] at h
        omega
      · rw [Party.take_state, hc]
        exact ⟨g, c, (Party.take_first r p f incoming s).1 hg, hgc, hpc⟩
      · rw [hback, Party.take_state, hc, hv]
        exact ⟨f, v, rfl, hfv, rfl, fun h => hne h.symm⟩
    | echo h2 => exact hp.kept f incoming h2 (by omega) hc hv
  · exact hp.kept f incoming (by omega) (by omega) hc hv

theorem Party.Ok.taken {sid : String} {r : Role} {p : Party} (hp : p.Ok sid r) {f : Frame} {incoming : Bool}
    {s : SessionState} (ht : Took p.state f incoming s) : (p.take f incoming s).Ok sid r := by
  obtain ⟨hsid, hrole⟩ := hp.session
  refine ⟨?_, ?_, ?_, ?_, hp.greets.taken hrole ht⟩
  · rw [Party.take_state, ht.same.1, ht.same.2]
    exact hp.session
  · rw [Party.take_state, ht.inCounter, hp.accepted]
    cases incoming <;> simp [Party.take]
  · rw [Party.take_state, ht.outCounter, hp.sent]
    cases incoming <;> simp [Party.take]
  · intro i g hg
    cases incoming with
    | true => exact hp.numbered i g hg
    | false =>
      have hg : (p.sent ++ [f])[i]? = some g := hg
      rcases Nat.lt_or_ge i p.sent.length with hlt | hge
      · rw [List.getElem?_append_left hlt] at hg
        exact hp.numbered i g hg
      · rw [List.getElem?_append_right hge, List.getElem?_singleton] at hg
        split at hg
        · rename_i hi
          cases hg
          have hi : i = p.sent.length := by omega
          refine ⟨ht.sessionId.trans hsid, ?_, ?_⟩
          · simpa [hrole] using ht.direction
          · rw [hi, ← hp.sent]
            simpa using ht.counter
        · cases hg

theorem Party.ok_new (sid run : String) (r : Role) (t : Rat) : Party.Ok sid r ⟨.new sid run r t, [], []⟩ := by
  refine ⟨⟨rfl, rfl⟩, rfl, rfl, ?_, ?_, ?_, ?_, ?_⟩
  · intro i f h
    cases h
  · intro _
    cases r <;> rfl
  · intro _
    cases r <;> exact ⟨rfl, rfl⟩
  · intro h
    exact absurd h (Nat.not_succ_le_zero 0)
  · intro h
    exact absurd h (Nat.not_succ_le_zero 1)

theorem Party.send_cases (C : Channel) (p : Party) (now : Rat) (t : MessageType) (b : FrameBody) :
    p.send C now t b = p ∨ ∃ f s, p.send C now t b = p.take f false s ∧ Took p.state f False s := by
  unfold Party.send
  rcases Wire.send_cases C p.state now t b with ⟨e, he⟩ | ⟨s, data, hs, ht⟩
  · rw [he]
    exact .inl rfl
  · rw [hs]
    exact .inr ⟨_, s, rfl, ht⟩

theorem Party.resume_cases (p : Party) (now : Rat) (f : Frame) :
    p.resume now f = p ∨ ∃ s, p.resume now f = p.take f false s ∧ Took p.state f False s := by
  unfold Party.resume
  rcases accept_cases p.state now f False with ⟨e, he⟩ | ⟨s, hs, ht⟩
  · rw [he]
    exact .inl rfl
  · rw [hs]
    exact .inr ⟨s, rfl, ht⟩

theorem Party.receive_cases (C : Channel) (p : Party) (now : Rat) (data : List UInt8) :
    p.receive C now data = p ∨ ∃ f s, p.receive C now data = p.take f true s ∧
      C.parse data = some (f, C.hmac C.key f) ∧ Took p.state f True s := by
  unfold Party.receive
  rcases verifyFrame_cases C p.state now data with ⟨e, he⟩ | ⟨s, f, hs, hparse, ht⟩
  · rw [he]
    exact .inl rfl
  · rw [hs]
    exact .inr ⟨f, s, rfl, hparse, ht⟩

/-! ## Both sides -/

def Role.other : Role → Role
  | .client => .backend
  | .backend => .client

@[simp] theorem Net.party_set (n : Net) (r : Role) (p : Party) : (n.set r p).party r = p := by cases r <;> rfl

@[simp] theorem Net.party_other_set (n : Net) (r : Role) (p : Party) :
    (n.set r p).party r.other = n.party r.other := by cases r <;> rfl

theorem Role.eq_or_other (r r' : Role) : r' = r ∨ r' = r.other := by cases r <;> cases r' <;> decide

@[simp] theorem Role.other_other (r : Role) : r.other.other = r := by cases r <;> rfl

theorem Role.incoming_eq (r : Role) : r.incoming = r.other.outgoing := by cases r <;> rfl

theorem Role.outgoing_ne (r : Role) : r.outgoing ≠ r.incoming := by cases r <;> decide

structure Net.Ok (sessionId : String) (n : Net) : Prop where
  side : ∀ r, (n.party r).Ok sessionId r
  ordered : ∀ r, (n.party r).accepted <+: (n.party r.other).sent

theorem Net.Ok.set {sid : String} {n : Net} (hn : n.Ok sid) {r : Role} {p : Party} (hp : p.Ok sid r)
    (hacc : p.accepted <+: (n.party r.other).sent) (hsent : (n.party r.other).accepted <+: p.sent) :
    (n.set r p).Ok sid := by
  refine ⟨fun r' => ?_, fun r' => ?_⟩
  · rcases r.eq_or_other r' with rfl | rfl
    · rw [Net.party_set]
      exact hp
    · rw [Net.party_other_set]
      exact hn.side r.other
  · rcases r.eq_or_other r' with rfl | rfl
    · rw [Net.party_set, Net.party_other_set]
      exact hacc
    · rw [Net.party_other_set, Role.other_other, Net.party_set]
      exact hsent

/-- A frame more from a side. -/
theorem Net.Ok.sends {sid : String} {n : Net} (hn : n.Ok sid) {r : Role} {f : Frame} {s : SessionState}
    (ht : Took (n.party r).state f False s) : (n.set r ((n.party r).take f false s)).Ok sid := by
  refine hn.set ((hn.side r).taken (by simpa using ht)) (hn.ordered r) ?_
  have hsent := hn.ordered r.other
  rw [Role.other_other] at hsent
  exact hsent.trans (List.prefix_append _ _)

/-- The frame a side takes is the next one the other has sent: the direction tells it from
    the side's own frames, the counter from the other's other frames. -/
theorem Net.Ok.next {sid : String} {n : Net} (hn : n.Ok sid) {r : Role} {f : Frame} {s : SessionState}
    (ht : Took (n.party r).state f True s)
    (hf : f.sessionId ≠ sid ∨ f ∈ n.client.sent ∨ f ∈ n.backend.sent) :
    (n.party r.other).sent[(n.party r).accepted.length]? = some f := by
  obtain ⟨hsid, hrole⟩ := (hn.side r).session
  have hdir : f.direction = r.incoming := by simpa [hrole] using ht.direction
  have hcount : f.counter = plain ((n.party r).accepted.length + 1) := by
    rw [← (hn.side r).accepted]
    simpa using ht.counter
  have hmem : f ∈ (n.party r).sent ∨ f ∈ (n.party r.other).sent := by
    rcases hf with h | h | h
    · exact absurd (ht.sessionId.trans hsid) h
    · cases r with
      | client => exact .inl h
      | backend => exact .inr h
    · cases r with
      | client => exact .inr h
      | backend => exact .inl h
  rcases hmem with h | h
  · obtain ⟨i, hi⟩ := List.mem_iff_getElem?.mp h
    have hown := ((hn.side r).numbered i f hi).2.1
    exact absurd (hown.symm.trans hdir) r.outgoing_ne
  · obtain ⟨i, hi⟩ := List.mem_iff_getElem?.mp h
    have hnum := ((hn.side r.other).numbered i f hi).2.2
    have heq : i + 1 = (n.party r).accepted.length + 1 := congrArg Anchored.value (hnum.symm.trans hcount)
    rw [← Nat.succ.inj heq]
    exact hi

theorem prefix_snoc {α : Type} {l m : List α} {a : α} (h : l <+: m) (ha : m[l.length]? = some a) : l ++ [a] <+: m := by
  obtain ⟨t, rfl⟩ := h
  rw [List.getElem?_append_right (Nat.le_refl _), Nat.sub_self] at ha
  cases t with
  | nil => cases ha
  | cons b t =>
    cases ha
    exact ⟨t, by simp⟩

theorem Net.Ok.step {C : Channel} {sid : String} {n n' : Net} (hn : n.Ok sid) (h : Step C sid n n') : n'.Ok sid := by
  cases h with
  | send r now t b =>
    rcases (n.party r).send_cases C now t b with h | ⟨f, s, h, ht⟩
    · rw [h]
      cases r <;> exact hn
    · rw [h]
      exact hn.sends ht
  | resume r now f =>
    rcases (n.party r).resume_cases now f with h | ⟨s, h, ht⟩
    · rw [h]
      cases r <;> exact hn
    · rw [h]
      exact hn.sends ht
  | deliver r now data hdata =>
    rcases (n.party r).receive_cases C now data with h | ⟨f, s, h, hparse, ht⟩
    · rw [h]
      cases r <;> exact hn
    · rw [h]
      have hnext := hn.next ht (hdata _ hparse rfl)
      refine hn.set ((hn.side r).taken (by simpa using ht)) (prefix_snoc (hn.ordered r) hnext) ?_
      have hsent := hn.ordered r.other
      rw [Role.other_other] at hsent
      exact hsent

theorem reach_ok {C : Channel} {sid run : String} {n : Net} (h : Reach C sid run n) : n.Ok sid := by
  induction h with
  | start tc tb =>
    refine ⟨fun r => ?_, fun r => ?_⟩
    · cases r <;> exact Party.ok_new sid run _ _
    · cases r <;> exact List.nil_prefix
  | step _ hs ih => exact ih.step hs

/-- The nonces of two ready sides are those of the same two frames. -/
theorem Net.Ok.agreed {sid : String} {n : Net} (hn : n.Ok sid) (hc : 2 ≤ n.client.state.stage)
    (hb : 2 ≤ n.backend.state.stage) :
    n.client.state.clientNonce = n.backend.state.clientNonce ∧
      n.client.state.serverNonce = n.backend.state.serverNonce := by
  have hC := (hn.side .client).greets
  have hB := (hn.side .backend).greets
  obtain ⟨f, c, hf, hfc, hcc⟩ := hC.clientNonce (Nat.le_of_succ_le hc)
  obtain ⟨f', c', hf', hfc', hbc⟩ := hB.clientNonce (Nat.le_of_succ_le hb)
  obtain ⟨g, v, hg, hgv, hcv, -⟩ := hC.serverNonce hc
  obtain ⟨g', v', hg', hgv', hbv, -⟩ := hB.serverNonce hb
  have hsame : f' = f := by
    obtain ⟨t, ht⟩ := hn.ordered .backend
    have h : n.client.sent[0]? = some f' := by
      rw [show n.client.sent = _ from ht.symm]
      exact getElem?_append_of_some hf'
    exact Option.some.inj (h.symm.trans hf)
  have hsame' : g = g' := by
    obtain ⟨t, ht⟩ := hn.ordered .client
    have h : n.backend.sent[0]? = some g := by
      rw [show n.backend.sent = _ from ht.symm]
      exact getElem?_append_of_some hg
    exact Option.some.inj (h.symm.trans hg')
  subst hsame hsame'
  constructor
  · exact hcc.trans ((hfc.symm.trans hfc').trans hbc.symm)
  · exact hcv.trans ((hgv.symm.trans hgv').trans hbv.symm)

theorem send_rejected {C : Channel} {s : SessionState} {now : Rat} {t : MessageType} {b : FrameBody} {e : SessionError}
    (h : (send C s now t b).2 = .error e) : (send C s now t b).1 = s := by
  rcases send_cases C s now t b with ⟨e', he⟩ | ⟨s', data, hs, -⟩
  · rw [he]
  · rw [hs] at h
    cases h

theorem verifyFrame_rejected {C : Channel} {s : SessionState} {now : Rat} {data : List UInt8} {e : SessionError}
    (h : (verifyFrame C s now data).2 = .error e) : (verifyFrame C s now data).1 = s := by
  rcases verifyFrame_cases C s now data with ⟨e', he⟩ | ⟨s', f, hs, -, -⟩
  · rw [he]
  · rw [hs] at h
    cases h

/-- In every reachable state: each side's accepted frames are a prefix of the other's sent
    ones; two ready sides hold the same nonces; no side holds one nonce twice, and a ready
    one holds both; and what is rejected, to be sent or received, leaves the state. -/
theorem session_safe {C : Channel} {sessionId runId : String} {n : Net} (h : Reach C sessionId runId n) :
    (n.client.accepted <+: n.backend.sent ∧ n.backend.accepted <+: n.client.sent) ∧
    (n.client.state.ready → n.backend.state.ready →
      n.client.state.clientNonce = n.backend.state.clientNonce ∧
      n.client.state.serverNonce = n.backend.state.serverNonce) ∧
    (∀ r, (n.party r).state.ready → ∃ c v, (n.party r).state.clientNonce = some c ∧
      (n.party r).state.serverNonce = some v) ∧
    (∀ r v, (n.party r).state.serverNonce = some v → (n.party r).state.clientNonce ≠ some v) ∧
    (∀ r now data e, (verifyFrame C (n.party r).state now data).2 = .error e →
      (verifyFrame C (n.party r).state now data).1 = (n.party r).state) ∧
    ∀ r now t b e, (send C (n.party r).state now t b).2 = .error e →
      (send C (n.party r).state now t b).1 = (n.party r).state := by
  have hn := reach_ok h
  refine ⟨⟨hn.ordered .client, hn.ordered .backend⟩, ?_, ?_, ?_, ?_, ?_⟩
  · intro hc hb
    have hc : n.client.state.stage = 4 := hc
    have hb : n.backend.state.stage = 4 := hb
    exact hn.agreed (by omega) (by omega)
  · intro r hr
    have hr : (n.party r).state.stage = 4 := hr
    obtain ⟨f, c, -, -, hc⟩ := (hn.side r).greets.clientNonce (by omega)
    obtain ⟨g, v, -, -, hv, -⟩ := (hn.side r).greets.serverNonce (by omega)
    exact ⟨c, v, hc, hv⟩
  · intro r v hv
    by_cases h2 : 2 ≤ (n.party r).state.stage
    · obtain ⟨g, v', -, -, hv', hne⟩ := (hn.side r).greets.serverNonce h2
      rw [hv] at hv'
      cases hv'
      exact hne
    · have hnone := ((hn.side r).greets.silentBackend (by omega)).2
      rw [hv] at hnone
      cases hnone
  · intro r now data e he
    exact verifyFrame_rejected he
  · intro r now t b e he
    exact send_rejected he

/-! ## A small session -/

def nonceA : String := "AAAAAAAAAAAAAAAAAAAAAAAAAAAAAAAAAAAAAAAAAAA"
def nonceB : String := "AAAAAAAAAAAAAAAAAAAAAAAAAAAAAAAAAAAAAAAAAAE"

/-- The bodies of a handshake and of one PING. -/
def smallBodies : List (Role × MessageType × FrameBody) :=
  [(.client, .hello, ⟨some "run", some nonceA, none, ""⟩),
   (.backend, .welcome, ⟨some "run", some nonceA, some nonceB, ""⟩),
   (.client, .ready, ⟨some "run", some nonceA, some nonceB, ""⟩),
   (.backend, .readyAck, ⟨some "run", some nonceA, some nonceB, ""⟩),
   (.client, .ping, ⟨none, none, none, "1"⟩)]

def smallFrames : List Frame :=
  smallBodies.zipIdx.map fun ((r, t, b), i) => ⟨"session", r.outgoing, plain (i / 2 + 1), t, b⟩

def smallChannel : Channel where
  key := List.replicate 32 7
  hmac _ f := f.body.rest ++ f.sessionId
  valid _ _ _ := True
  validDecidable _ _ _ := .isTrue trivial
  dumps f _ := [123, if f.direction = .clientToBackend then 1 else 2, UInt8.ofNat f.counter.value, 125]
  parse data := smallFrames.find? (fun f =>
      data = [123, if f.direction = .clientToBackend then 1 else 2, UInt8.ofNat f.counter.value, 125])
    |>.map fun f => (f, f.body.rest ++ f.sessionId)

/-- The side's next frame as it goes over the wire. -/
def Party.data (C : Channel) (p : Party) (t : MessageType) (b : FrameBody) : List UInt8 :=
  C.dumps (p.state.frame t b) (C.hmac C.key (p.state.frame t b))

def Net.sends (C : Channel) (n : Net) (r : Role) (t : MessageType) (b : FrameBody) : Net :=
  n.set r ((n.party r).send C 0 t b)

def Net.receives (C : Channel) (n : Net) (r : Role) (data : List UInt8) : Net :=
  n.set r ((n.party r).receive C 0 data)

/-- A side sends, and what it sent comes to the other twice and to itself. -/
def Net.exchange (C : Channel) (n : Net) (r : Role) (t : MessageType) (b : FrameBody) : Net :=
  let data := (n.party r).data C t b
  (((n.sends C r t b).receives C r.other data).receives C r.other data).receives C r data

theorem Net.Unforged.receives {C : Channel} {sid : String} {n : Net} {data : List UInt8} (hn : n.Unforged C sid data)
    (r : Role) : (n.receives C r data).Unforged C sid data := by
  have hsent : ((n.party r).receive C 0 data).sent = (n.party r).sent := by
    rcases (n.party r).receive_cases C 0 data with h | ⟨f, s, h, -, -⟩
    · rw [h]
    · rw [h]
      rfl
  intro f hf hmac
  rcases hn f hf hmac with h | h | h
  · exact .inl h
  · cases r with
    | client => exact .inr (.inl (hsent ▸ h))
    | backend => exact .inr (.inl h)
  · cases r with
    | client => exact .inr (.inr h)
    | backend => exact .inr (.inr (hsent ▸ h))

theorem Reach.exchange {C : Channel} {sid run : String} {n : Net} (hn : Reach C sid run n) {r : Role} {t : MessageType}
    {b : FrameBody} (hsent : (n.sends C r t b).Unforged C sid ((n.party r).data C t b)) :
    Reach C sid run (n.exchange C r t b) := by
  have h1 := (hn.step (.send n r 0 t b)).step (.deliver _ r.other 0 _ hsent)
  have h2 := h1.step (.deliver _ r.other 0 _ (hsent.receives r.other))
  exact h2.step (.deliver _ r 0 _ ((hsent.receives r.other).receives r.other))

def Net.exchanges (C : Channel) (n : Net) (l : List (Role × MessageType × FrameBody)) : Net :=
  l.foldl (fun n (r, t, b) => n.exchange C r t b) n

/-- No exchange is taken for a forgery. -/
def Net.Clean (C : Channel) (sessionId : String) (n : Net) : List (Role × MessageType × FrameBody) → Prop
  | [] => True
  | (r, t, b) :: l => (n.sends C r t b).Unforged C sessionId ((n.party r).data C t b) ∧
      (n.exchange C r t b).Clean C sessionId l

theorem Reach.exchanges {C : Channel} {sid run : String} {l : List (Role × MessageType × FrameBody)} {n : Net}
    (hn : Reach C sid run n) (hl : n.Clean C sid l) : Reach C sid run (n.exchanges C l) := by
  induction l generalizing n with
  | nil => exact hn
  | cons e l ih => exact ih (hn.exchange hl.1) hl.2

def smallSession : Net := (Net.start "session" "run" 0 0).exchanges smallChannel smallBodies

theorem smallSession_reach : Reach smallChannel "session" "run" smallSession := by
  refine (Reach.start 0 0).exchanges ⟨?_, ?_, ?_, ?_, ?_, trivial⟩
  all_goals decide +kernel

theorem session_safe_small :
    smallSession.client.accepted.length = 2 ∧ smallSession.backend.accepted.length = 3 ∧
    smallSession.backend.accepted <+: smallSession.client.sent ∧
    smallSession.client.state.clientNonce = smallSession.backend.state.clientNonce ∧
    smallSession.client.state.clientNonce ≠ smallSession.client.state.serverNonce := by
  obtain ⟨⟨-, horder⟩, hagree, -, hdiffer, -⟩ := session_safe smallSession_reach
  refine ⟨by decide +kernel, by decide +kernel, horder, (hagree (by decide +kernel) (by decide +kernel)).1, ?_⟩
  have hserver : smallSession.client.state.serverNonce = some nonceB := by decide +kernel
  rw [hserver]
  exact hdiffer .client nonceB hserver

end BettingHelper.Wire
