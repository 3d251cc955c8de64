/-
  BettingHelper.Wire.Receiver — the sockets of one OfflineReceiver
  (`offline_receiver._request`, `_connection`).

  A handler runs from one await to the next in one piece; `Point` is the await it is at. A
  step is a new connection, one such piece, or an exception at an await (`Move.raise`, and
  `Move.drop` for a closed connection or a cancelled handler). `asyncio.Lock` is the name
  of the handler that holds it; where it is free the code does not wait for it, here any
  step may come between. `process_batch` has no await of its own: here it may take its
  time, and is a parameter, as are the parser, the schema and the keys.

  Proved (`sockets_exclusive`): a batch is processed only for the socket that became active
  last, never two at once; a session id passes HELLO once; at most two sockets are
  reserved; only the active socket's own end, or a newer socket, takes the active slot
  from it.
-/

import Mathlib
import BettingHelper.Wire.Session

namespace BettingHelper.Wire

open BettingHelper.Ingest

abbrev Socket := Nat

/-- The headers `_request` looks at. -/
structure Request where
  path : String
  host : List String
  origin : List String
  deriving DecidableEq, Repr

inductive Rejection where
  /-- `E_OFFLINE_HTTP_BINDING` -/
  | httpBinding
  /-- `E_OFFLINE_SOCKET_CAPACITY` -/
  | socketCapacity
  /-- `E_OFFLINE_CONNECTION_REJECTED` -/
  | connectionRejected
  deriving DecidableEq, Repr

abbrev Responses := List (MessageType × FrameBody)

/-- What a handler keeps of its handshake: the session, the key, and the WELCOME body. -/
structure Greeting where
  state : SessionState
  key : List UInt8
  body : FrameBody

/-- The await a handler is at. -/
inductive Point where
  /-- Reserved; the handler has not started. -/
  | opening
  | hello (started : Rat)
  | welcome (g : Greeting)
  | ready (g : Greeting)
  | readyAck (g : Greeting)
  /-- The lock, to become active. -/
  | activating (g : Greeting)
  /-- Under the lock: `close` of the socket that is active. -/
  | replacing (g : Greeting)
  | recv (g : Greeting)
  | pong (g : Greeting)
  /-- The lock, with a batch read. -/
  | waiting (g : Greeting) (frame : Frame)
  /-- Under the lock: `process_batch`. -/
  | processing (g : Greeting) (frame : Frame)
  /-- `before_send` of the first response. -/
  | asking (g : Greeting) (responses : Responses) (nack : Bool)
  | responding (g : Greeting) (responses : Responses) (nack : Bool)
  /-- `close(1008, "E_OFFLINE_BATCH_REJECTED")` -/
  | rejecting
  /-- `close(1008, "E_OFFLINE_CONNECTION_REJECTED")` -/
  | failing
  | done

def Point.locks : Point → Prop
  | .replacing _ => True
  | .processing _ _ => True
  | _ => False

/-- What is observed of a run. -/
inductive Event where
  | hello (s : Socket) (sessionId : String)
  | active (s : Socket)
  | batch (s : Socket) (frame : Frame)
  deriving DecidableEq, Repr

structure Env (σ : Type) where
  /-- Its key is a placeholder: each session has its own. -/
  channel : Channel
  keyProvider : String → Option (List UInt8)
  runId : String
  allowedExtensionOrigin : String
  processBatch : σ → Frame → σ × Except Unit Responses

structure Receiver (σ : Type) where
  reserved : Finset Socket
  usedSessions : List String
  lock : Option Socket
  active : Option Socket
  rejections : List Rejection
  point : Socket → Option Point
  /-- The sockets whose state is CLOSED. -/
  closed : Finset Socket
  store : σ
  trace : List Event

variable {σ : Type}

def Receiver.start (store : σ) : Receiver σ := ⟨∅, [], none, none, [], fun _ => none, ∅, store, []⟩

namespace Receiver

def goto (r : Receiver σ) (s : Socket) (p : Point) : Receiver σ := { r with point := Function.update r.point s (some p) }

/-- The end of an `async with`, of a handler that may be in one. -/
def release (r : Receiver σ) (s : Socket) : Receiver σ :=
  { r with lock := if r.lock = some s then none else r.lock }

/-- `except Exception`, up to its await. -/
def fail (r : Receiver σ) (s : Socket) : Receiver σ :=
  goto { r.release s with rejections := r.rejections ++ [.connectionRejected] } s .failing

/-- `finally`. -/
def exit (r : Receiver σ) (s : Socket) : Receiver σ :=
  goto { r.release s with
    reserved := r.reserved.erase s
    active := if r.active = some s then none else r.active } s .done

/-- `_request`: a connection is refused, or reserved. -/
def request (E : Env σ) (r : Receiver σ) (s : Socket) (q : Request) : Receiver σ :=
  let r := { r with reserved := r.reserved \ r.closed }
  if q.path ≠ "/offline" ∨ q.host ≠ ["127.0.0.1:8765"] ∨ q.origin ≠ [E.allowedExtensionOrigin] then
    goto { r with rejections := r.rejections ++ [.httpBinding] } s .done
  else if 2 ≤ r.reserved.card then goto { r with rejections := r.rejections ++ [.socketCapacity] } s .done
  else goto { r with reserved := insert s r.reserved } s .opening

/-- From the first message to `send(WELCOME)`. A message that is not text is `none`. -/
def hello (E : Env σ) (r : Receiver σ) (s : Socket) (started now : Rat) (serverNonce : String)
    (message : Option (List UInt8)) : Receiver σ :=
  match message with
  | none => r.fail s
  | some data =>
    match E.channel.parse data with
    | none => r.fail s
    | some (frame, mac) =>
      if ¬E.channel.valid .backend frame mac then r.fail s
      else
        match E.keyProvider frame.sessionId with
        | none => r.fail s
        | some key =>
          if frame.sessionId ∈ r.usedSessions then r.fail s
          else
            let channel := { E.channel with key := key }
            match verifyFrame channel (.new frame.sessionId E.runId .backend started) now data with
            | (_, .error _) => r.fail s
            | (state, .ok _) =>
              let r : Receiver σ := { r with usedSessions := r.usedSessions ++ [frame.sessionId],
                                             trace := r.trace ++ [.hello s frame.sessionId] }
              let body : FrameBody := ⟨some E.runId, state.clientNonce, some serverNonce, ""⟩
              match send channel state now .welcome body with
              | (_, .error _) => r.fail s
              | (state, .ok _) => r.goto s (.welcome ⟨state, key, body⟩)

/-- A frame of the session, and what follows it. -/
def verified (E : Env σ) (r : Receiver σ) (s : Socket) (g : Greeting) (now : Rat) (message : Option (List UInt8))
    (next : Greeting → Frame → Receiver σ) : Receiver σ :=
  match message with
  | none => r.fail s
  | some data =>
    match verifyFrame { E.channel with key := g.key } g.state now data with
    | (_, .error _) => r.fail s
    | (state, .ok frame) => next { g with state := state } frame

/-- `await socket.send(state.send(…))`, up to the await. -/
def sending (E : Env σ) (r : Receiver σ) (s : Socket) (g : Greeting) (now : Rat) (t : MessageType) (body : FrameBody)
    (next : Greeting → Point) : Receiver σ :=
  match send { E.channel with key := g.key } g.state now t body with
  | (_, .error _) => r.fail s
  | (state, .ok _) => r.goto s (next { g with state := state })

/-- From READY to `send(READY_ACK)`. -/
def welcomed (E : Env σ) (r : Receiver σ) (s : Socket) (g : Greeting) (now : Rat) (message : Option (List UInt8)) :
    Receiver σ :=
  r.verified E s g now message fun g _ => r.sending E s g now .readyAck g.body .readyAck

/-- `self._active = socket`, and out of the lock. -/
def activate (r : Receiver σ) (s : Socket) (g : Greeting) : Receiver σ :=
  goto { r.release s with active := some s, trace := r.trace ++ [.active s] } s (.recv g)

/-- The lock acquired to become active: the other socket is closed first. -/
def acquire (r : Receiver σ) (s : Socket) (g : Greeting) : Receiver σ :=
  if r.active ≠ none ∧ r.active ≠ some s then goto { r with lock := some s } s (.replacing g) else r.activate s g

/-- A frame in the loop. -/
def received (E : Env σ) (r : Receiver σ) (s : Socket) (g : Greeting) (now : Rat) (message : Option (List UInt8)) :
    Receiver σ :=
  r.verified E s g now message fun g frame =>
    if frame.messageType = .stop then r.exit s
    else if frame.messageType = .ping then r.sending E s g now .pong frame.body .pong
    else if frame.messageType ≠ .batch then r.fail s
    else r.goto s (.waiting g frame)

/-- The lock acquired with a batch. -/
def enter (r : Receiver σ) (s : Socket) (g : Greeting) (frame : Frame) : Receiver σ :=
  if r.active ≠ some s then r.fail s else goto { r with lock := some s } s (.processing g frame)

/-- The head of the loop over the responses. -/
def answer (r : Receiver σ) (s : Socket) (g : Greeting) (responses : Responses) (nack : Bool) : Receiver σ :=
  match responses with
  | [] => if nack then r.goto s .rejecting else r.goto s (.recv g)
  | _ :: _ => r.goto s (.asking g responses nack)

/-- `process_batch`, and out of the lock. -/
def process (E : Env σ) (r : Receiver σ) (s : Socket) (g : Greeting) (frame : Frame) : Receiver σ :=
  match E.processBatch r.store frame with
  | (store, .error _) => fail { r with store := store, trace := r.trace ++ [.batch s frame] } s
  | (store, .ok responses) =>
    (release { r with store := store, trace := r.trace ++ [.batch s frame] } s).answer s g responses
      (responses.any fun response => response.1 = .nack)

/-- What `before_send` said. -/
def asked (E : Env σ) (r : Receiver σ) (s : Socket) (g : Greeting) (now : Rat) (responses : Responses) (nack ok : Bool) :
    Receiver σ :=
  match responses with
  | [] => r.answer s g [] nack
  | (t, body) :: rest => if ok then r.sending E s g now t body (.responding · rest nack) else r.exit s

end Receiver

inductive Move (E : Env σ) (r : Receiver σ) : Receiver σ → Prop
  | request (s : Socket) (q : Request) : r.point s = none → Move E r (r.request E s q)
  | begin (s : Socket) (now : Rat) : r.point s = some .opening → Move E r (r.goto s (.hello now))
  /-- The opening handshake fails after `_request`; there is no handler. -/
  | abandon (s : Socket) : r.point s = some .opening → Move E r (r.goto s .done)
  /-- A connection's state becomes CLOSED. -/
  | close (s : Socket) : Move E r { r with closed := insert s r.closed }
  | hello (s : Socket) (started now : Rat) (serverNonce : String) (message : Option (List UInt8)) :
      r.point s = some (.hello started) → Move E r (r.hello E s started now serverNonce message)
  | welcome (s : Socket) (g : Greeting) : r.point s = some (.welcome g) → Move E r (r.goto s (.ready g))
  | ready (s : Socket) (g : Greeting) (now : Rat) (message : Option (List UInt8)) :
      r.point s = some (.ready g) → Move E r (r.welcomed E s g now message)
  | readyAck (s : Socket) (g : Greeting) : r.point s = some (.readyAck g) → Move E r (r.goto s (.activating g))
  | acquire (s : Socket) (g : Greeting) : r.point s = some (.activating g) → r.lock = none → Move E r (r.acquire s g)
  | replaced (s : Socket) (g : Greeting) : r.point s = some (.replacing g) → Move E r (r.activate s g)
  | recv (s : Socket) (g : Greeting) (now : Rat) (message : Option (List UInt8)) :
      r.point s = some (.recv g) → Move E r (r.received E s g now message)
  | pong (s : Socket) (g : Greeting) : r.point s = some (.pong g) → Move E r (r.goto s (.recv g))
  | enter (s : Socket) (g : Greeting) (frame : Frame) : r.point s = some (.waiting g frame) → r.lock = none →
      Move E r (r.enter s g frame)
  | process (s : Socket) (g : Greeting) (frame : Frame) : r.point s = some (.processing g frame) →
      Move E r (r.process E s g frame)
  | asked (s : Socket) (g : Greeting) (responses : Responses) (nack ok : Bool) (now : Rat) :
      r.point s = some (.asking g responses nack) → Move E r (r.asked E s g now responses nack ok)
  | responded (s : Socket) (g : Greeting) (responses : Responses) (nack : Bool) :
      r.point s = some (.responding g responses nack) → Move E r (r.answer s g responses nack)
  | rejected (s : Socket) : r.point s = some .rejecting → Move E r (r.exit s)
  | failed (s : Socket) : r.point s = some .failing → Move E r (r.exit s)
  | raise (s : Socket) (p : Point) : r.point s = some p → p ≠ .opening → p ≠ .done → p ≠ .failing → Move E r (r.fail s)
  | drop (s : Socket) (p : Point) : r.point s = some p → p ≠ .opening → p ≠ .done → Move E r (r.exit s)

inductive Run (E : Env σ) (store : σ) : Receiver σ → Prop
  | start : Run E store (.start store)
  | step {r r' : Receiver σ} : Run E store r → Move E r r' → Run E store r'

/-! ## What a trace says -/

def Event.activated : Event → Option Socket
  | .active s => some s
  | _ => none

def Event.greeted : Event → Option String
  | .hello _ sessionId => some sessionId
  | _ => none

/-- The socket that became active last. -/
def lastActive (l : List Event) : Option Socket := (l.filterMap Event.activated).getLast?

def sessions (l : List Event) : List String := l.filterMap Event.greeted

/-- Each batch is of the socket that became active last before it. -/
def Ordered (l : List Event) : Prop :=
  ∀ (pre : List Event) (s : Socket) (frame : Frame) (post : List Event), l = pre ++ .batch s frame :: post →
    lastActive pre = some s

theorem lastActive_snoc (l : List Event) (e : Event) : lastActive (l ++ [e]) = e.activated.or (lastActive l) := by
  unfold lastActive
  cases e <;> simp [Event.activated]

theorem Ordered.snoc {l : List Event} (hl : Ordered l) {e : Event}
    (he : ∀ s frame, e = .batch s frame → lastActive l = some s) : Ordered (l ++ [e]) := by
  intro pre s frame post h
  rcases List.eq_nil_or_concat post with rfl | ⟨post, e', rfl⟩
  · obtain ⟨rfl, hlast⟩ := List.append_inj' h rfl
    exact he s frame (List.singleton_inj.mp hlast)
  · have h' : l ++ [e] = (pre ++ .batch s frame :: post) ++ [e'] := by simpa using h
    exact hl pre s frame post (List.append_inj' h' rfl).1

/-! ## What holds of every receiver -/

structure Receiver.Ok (r : Receiver σ) : Prop where
  capacity : r.reserved.card ≤ 2
  /-- The lock is held exactly by the handler at an await under it. -/
  locked : ∀ s, r.lock = some s ↔ ∃ p, r.point s = some p ∧ p.locks
  processing : ∀ s g frame, r.point s = some (.processing g frame) → r.active = some s
  latest : ∀ s, r.active = some s → lastActive r.trace = some s
  batches : Ordered r.trace
  hellos : sessions r.trace = r.usedSessions ∧ r.usedSessions.Nodup

namespace Receiver

variable {r : Receiver σ} {s : Socket}

theorem point_goto (r : Receiver σ) (s : Socket) (p : Point) : (r.goto s p).point s = some p := Function.update_self _ _ _

theorem point_goto_ne (r : Receiver σ) {s t : Socket} (p : Point) (h : t ≠ s) : (r.goto s p).point t = r.point t :=
  Function.update_of_ne h _ _

theorem Ok.start (store : σ) : (start store).Ok := by
  refine ⟨by simp [Receiver.start], ?_, ?_, ?_, ?_, rfl, List.nodup_nil⟩
  · intro s
    simp [Receiver.start]
  · intro s g frame h
    cases h
  · intro s h
    cases h
  · intro pre s frame post h
    exact absurd h (by simp [Receiver.start])

/-- A handler leaves the lock, if it holds it, and goes to an await outside. -/
theorem Ok.leave (hr : r.Ok) {p : Point} (hp : ¬p.locks) : ((r.release s).goto s p).Ok := by
  refine ⟨hr.capacity, fun t => ?_, fun t g frame ht => ?_, hr.latest, hr.batches, hr.hellos⟩
  · by_cases e : t = s
    · subst e
      rw [point_goto]
      constructor
      · intro hlock
        have hlock : (if r.lock = some t then none else r.lock) = some t := hlock
        split at hlock
        · cases hlock
        · rename_i hne
          exact absurd hlock hne
      · rintro ⟨q, hq, hlocks⟩
        cases hq
        exact absurd hlocks hp
    · rw [point_goto_ne _ _ e, show (r.release s).point = r.point from rfl, ← hr.locked t]
      change (if r.lock = some s then none else r.lock) = some t ↔ _
      split
      · rename_i hs
        rw [hs]
        simpa using Ne.symm e
      · rfl
  · by_cases e : t = s
    · subst e
      rw [point_goto] at ht
      cases ht
      exact absurd trivial hp
    · rw [point_goto_ne _ _ e] at ht
      exact hr.processing t g frame ht

/-- A handler outside the lock goes on outside. -/
theorem Ok.goto (hr : r.Ok) (hs : ∀ q, r.point s = some q → ¬q.locks) {p : Point} (hp : ¬p.locks) : (r.goto s p).Ok := by
  have hfree : r.release s = r := by
    have hne : r.lock ≠ some s := by
      intro h
      obtain ⟨q, hq, hlocks⟩ := (hr.locked s).mp h
      exact hs q hq hlocks
    unfold release
    rw [if_neg hne]
  rw [← hfree]
  exact hr.leave hp

theorem Ok.fail (hr : r.Ok) (s : Socket) : (r.fail s).Ok := by
  have h := hr.leave (s := s) (p := .failing) id
  exact ⟨h.capacity, h.locked, h.processing, h.latest, h.batches, h.hellos⟩

theorem Ok.exit (hr : r.Ok) (s : Socket) : (r.exit s).Ok := by
  have h := hr.leave (s := s) (p := .done) id
  refine ⟨?_, h.locked, ?_, ?_, h.batches, h.hellos⟩
  · exact (Finset.card_le_card (Finset.erase_subset s r.reserved)).trans hr.capacity
  · intro t g frame ht
    have hact : r.active = some t := h.processing t g frame ht
    have hne : t ≠ s := by
      rintro rfl
      rw [show (r.exit t).point t = some .done from Function.update_self _ _ _] at ht
      cases ht
    show (if r.active = some s then none else r.active) = some t
    rw [hact, if_neg (by simpa using hne)]
  · intro t ht
    have ht : (if r.active = some s then none else r.active) = some t := ht
    split at ht
    · cases ht
    · exact hr.latest t ht

/-- An open lock is taken, by a handler that goes to an await under it. -/
theorem Ok.take (hr : r.Ok) (hfree : r.lock = none) {p : Point} (hp : p.locks)
    (hproc : ∀ g frame, p = .processing g frame → r.active = some s) :
    (Receiver.goto { r with lock := some s } s p).Ok := by
  refine ⟨hr.capacity, fun t => ?_, fun t g frame ht => ?_, hr.latest, hr.batches, hr.hellos⟩
  · by_cases e : t = s
    · subst e
      rw [point_goto]
      exact ⟨fun _ => ⟨p, rfl, hp⟩, fun _ => rfl⟩
    · rw [point_goto_ne _ _ e, ← hr.locked t, hfree]
      constructor
      · intro h
        exact absurd (Option.some.inj h).symm e
      · intro h
        cases h
  · by_cases e : t = s
    · subst e
      rw [point_goto] at ht
      exact hproc g frame (Option.some.inj ht)
    · rw [point_goto_ne _ _ e] at ht
      exact hr.processing t g frame ht

theorem Ok.activate (hr : r.Ok) (hlock : r.lock = none ∨ r.lock = some s) (g : Greeting) : (r.activate s g).Ok := by
  have h := hr.leave (s := s) (p := .recv g) id
  refine ⟨h.capacity, h.locked, ?_, ?_, ?_, ?_⟩
  · intro t g' frame ht
    have hne : t ≠ s := by
      rintro rfl
      rw [show (r.activate t g).point t = some (.recv g) from Function.update_self _ _ _] at ht
      cases ht
    -- no other handler holds the lock
    have ht : r.point t = some (.processing g' frame) := by
      rw [← ht]
      exact (Function.update_of_ne hne _ _).symm
    have hheld : r.lock = some t := (hr.locked t).mpr ⟨_, ht, trivial⟩
    rcases hlock with hnone | hsome
    · rw [hnone] at hheld
      cases hheld
    · rw [hsome] at hheld
      exact absurd (Option.some.inj hheld).symm hne
  · intro t ht
    have ht : some s = some t := ht
    cases ht
    show lastActive (r.trace ++ [.active s]) = some s
    rw [lastActive_snoc]
    rfl
  · exact hr.batches.snoc (by simp)
  · refine ⟨?_, hr.hellos.2⟩
    show sessions (r.trace ++ [.active s]) = r.usedSessions
    rw [← hr.hellos.1]
    simp [sessions, Event.greeted]

theorem Ok.helloed (hr : r.Ok) {sid : String} (hnew : sid ∉ r.usedSessions) :
    ({ r with usedSessions := r.usedSessions ++ [sid], trace := r.trace ++ [.hello s sid] } : Receiver σ).Ok := by
  refine ⟨hr.capacity, hr.locked, hr.processing, ?_, hr.batches.snoc (by simp), ?_, ?_⟩
  · intro t ht
    show lastActive (r.trace ++ [.hello s sid]) = some t
    rw [lastActive_snoc]
    exact hr.latest t ht
  · show sessions (r.trace ++ [.hello s sid]) = r.usedSessions ++ [sid]
    rw [← hr.hellos.1]
    simp [sessions, Event.greeted]
  · rw [List.nodup_append]
    refine ⟨hr.hellos.2, List.nodup_singleton _, ?_⟩
    rintro a ha b hb rfl
    rw [List.mem_singleton.mp hb] at ha
    exact hnew ha

theorem Ok.batched (hr : r.Ok) (hact : r.active = some s) (frame : Frame) (store : σ) :
    ({ r with store := store, trace := r.trace ++ [.batch s frame] } : Receiver σ).Ok := by
  refine ⟨hr.capacity, hr.locked, hr.processing, ?_, ?_, ?_, hr.hellos.2⟩
  · intro t ht
    show lastActive (r.trace ++ [.batch s frame]) = some t
    rw [lastActive_snoc]
    exact hr.latest t ht
  · refine hr.batches.snoc fun t f h => ?_
    cases h
    exact hr.latest s hact
  · show sessions (r.trace ++ [.batch s frame]) = r.usedSessions
    rw [← hr.hellos.1]
    simp [sessions, Event.greeted]

/-! ## One piece of a handler -/

theorem outside {p : Point} (h : r.point s = some p) (hp : ¬p.locks) : ∀ q, r.point s = some q → ¬q.locks := by
  intro q hq
  rw [h] at hq
  cases hq
  exact hp

theorem Ok.request (hr : r.Ok) (E : Env σ) (q : Request) (h : r.point s = none) : (r.request E s q).Ok := by
  have hout : ∀ p, r.point s = some p → ¬p.locks := by
    intro p hp
    rw [h] at hp
    cases hp
  have hpruned : ({ r with reserved := r.reserved \ r.closed } : Receiver σ).Ok :=
    ⟨(Finset.card_le_card Finset.sdiff_subset).trans hr.capacity, hr.locked, hr.processing, hr.latest, hr.batches,
      hr.hellos⟩
  unfold Receiver.request
  dsimp only
  split
  · have h := hpruned.goto hout (p := .done) id
    exact ⟨h.capacity, h.locked, h.processing, h.latest, h.batches, h.hellos⟩
  split
  · have h := hpruned.goto hout (p := .done) id
    exact ⟨h.capacity, h.locked, h.processing, h.latest, h.batches, h.hellos⟩
  · rename_i hroom
    have h := hpruned.goto hout (p := .opening) id
    refine ⟨?_, h.locked, h.processing, h.latest, h.batches, h.hellos⟩
    have hcard := Finset.card_insert_le s (r.reserved \ r.closed)
    show (insert s (r.reserved \ r.closed)).card ≤ 2
    omega

theorem Ok.sending (hr : r.Ok) (E : Env σ) (hout : ∀ p, r.point s = some p → ¬p.locks) (g : Greeting) (now : Rat)
    (t : MessageType) (body : FrameBody) {next : Greeting → Point} (hnext : ∀ g, ¬(next g).locks) :
    (r.sending E s g now t body next).Ok := by
  unfold Receiver.sending
  split
  · exact hr.fail s
  · exact hr.goto hout (hnext _)

theorem Ok.verified (hr : r.Ok) (E : Env σ) (g : Greeting) (now : Rat) (message : Option (List UInt8))
    {next : Greeting → Frame → Receiver σ} (hnext : ∀ g frame, (next g frame).Ok) :
    (r.verified E s g now message next).Ok := by
  unfold Receiver.verified
  cases message with
  | none => exact hr.fail s
  | some data =>
    dsimp only
    split
    · exact hr.fail s
    · exact hnext _ _

theorem Ok.hello (hr : r.Ok) (E : Env σ) (hout : ∀ p, r.point s = some p → ¬p.locks) (started now : Rat)
    (serverNonce : String) (message : Option (List UInt8)) : (r.hello E s started now serverNonce message).Ok := by
  unfold Receiver.hello
  cases message with
  | none => exact hr.fail s
  | some data =>
    dsimp only
    cases E.channel.parse data with
    | none => exact hr.fail s
    | some parsed =>
      obtain ⟨frame, mac⟩ := parsed
      dsimp only
      split
      · exact hr.fail s
      cases E.keyProvider frame.sessionId with
      | none => exact hr.fail s
      | some key =>
        dsimp only
        split
        · exact hr.fail s
        rename_i hnew
        split
        · exact hr.fail s
        · have hh := hr.helloed (s := s) hnew
          split
          · exact hh.fail s
          · exact hh.goto hout id

theorem Ok.received (hr : r.Ok) (E : Env σ) (hout : ∀ p, r.point s = some p → ¬p.locks) (g : Greeting) (now : Rat)
    (message : Option (List UInt8)) : (r.received E s g now message).Ok := by
  refine hr.verified E g now message fun g frame => ?_
  split
  · exact hr.exit s
  split
  · exact hr.sending E hout g now .pong frame.body fun _ => id
  split
  · exact hr.fail s
  · exact hr.goto hout id

theorem Ok.answer (hr : r.Ok) (hout : ∀ p, r.point s = some p → ¬p.locks) (g : Greeting) (responses : Responses)
    (nack : Bool) : (r.answer s g responses nack).Ok := by
  unfold Receiver.answer
  cases responses with
  | nil => cases nack <;> exact hr.goto hout id
  | cons _ _ => exact hr.goto hout id

/-- The handler leaves the lock with what `process_batch` returned. -/
theorem Ok.answer_released (hr : r.Ok) (g : Greeting) (responses : Responses) (nack : Bool) :
    ((r.release s).answer s g responses nack).Ok := by
  unfold Receiver.answer
  cases responses with
  | nil => cases nack <;> exact hr.leave id
  | cons _ _ => exact hr.leave id

theorem Ok.process (hr : r.Ok) (E : Env σ) {g : Greeting} {frame : Frame}
    (h : r.point s = some (.processing g frame)) : (r.process E s g frame).Ok := by
  have hbatched := hr.batched (hr.processing s g frame h) frame
  unfold Receiver.process
  split
  · exact (hbatched _).fail s
  · exact (hbatched _).answer_released g _ _

theorem Ok.asked (hr : r.Ok) (E : Env σ) (hout : ∀ p, r.point s = some p → ¬p.locks) (g : Greeting) (now : Rat)
    (responses : Responses) (nack ok : Bool) : (r.asked E s g now responses nack ok).Ok := by
  unfold Receiver.asked
  cases responses with
  | nil => exact hr.answer hout g [] nack
  | cons response rest =>
    dsimp only
    split
    · exact hr.sending E hout g now _ _ fun _ => id
    · exact hr.exit s

theorem Ok.move {E : Env σ} {r' : Receiver σ} (hr : r.Ok) (h : Move E r r') : r'.Ok := by
  cases h with
  | request s q hp => exact hr.request E q hp
  | begin s now hp => exact hr.goto (outside hp id) id
  | abandon s hp => exact hr.goto (outside hp id) id
  | close s => exact ⟨hr.capacity, hr.locked, hr.processing, hr.latest, hr.batches, hr.hellos⟩
  | hello s started now nonce message hp => exact hr.hello E (outside hp id) started now nonce message
  | welcome s g hp => exact hr.goto (outside hp id) id
  | ready s g now message hp =>
    exact hr.verified E g now message fun g _ => hr.sending E (outside hp id) g now .readyAck g.body fun _ => id
  | readyAck s g hp => exact hr.goto (outside hp id) id
  | acquire s g hp hfree =>
    unfold Receiver.acquire
    split
    · exact hr.take hfree trivial (by simp)
    · exact hr.activate (.inl hfree) g
  | replaced s g hp => exact hr.activate (.inr ((hr.locked s).mpr ⟨_, hp, trivial⟩)) g
  | recv s g now message hp => exact hr.received E (outside hp id) g now message
  | pong s g hp => exact hr.goto (outside hp id) id
  | enter s g frame hp hfree =>
    unfold Receiver.enter
    split
    · exact hr.fail s
    · rename_i hact
      exact hr.take hfree trivial fun _ _ _ => not_not.mp hact
  | process s g frame hp => exact hr.process E hp
  | asked s g responses nack ok now hp => exact hr.asked E (outside hp id) g now responses nack ok
  | responded s g responses nack hp => exact hr.answer (outside hp id) g responses nack
  | rejected s hp => exact hr.exit s
  | failed s hp => exact hr.exit s
  | raise s p hp _ _ _ => exact hr.fail s
  | drop s p hp _ _ => exact hr.exit s

end Receiver

theorem run_ok {E : Env σ} {store : σ} {r : Receiver σ} (h : Run E store r) : r.Ok := by
  induction h with
  | start => exact .start store
  | step _ hm ih => exact ih.move hm

/-! ## The active slot and the store -/

/-- What a step does to them. -/
inductive Effect (r : Receiver σ) : Receiver σ → Prop
  | none {r' : Receiver σ} : r'.active = r.active → r'.store = r.store → Effect r r'
  | ended (s : Socket) : Effect r (r.exit s)
  | newer {r' : Receiver σ} (s : Socket) : r'.active = some s → r'.store = r.store →
      r'.trace = r.trace ++ [.active s] → Effect r r'
  | batch {r' : Receiver σ} (s : Socket) (g : Greeting) (frame : Frame) : r.point s = some (.processing g frame) →
      r'.active = r.active → r'.trace = r.trace ++ [.batch s frame] → Effect r r'

namespace Receiver

variable {r : Receiver σ} {s : Socket}

theorem effect_sending (E : Env σ) (g : Greeting) (now : Rat) (t : MessageType) (body : FrameBody)
    (next : Greeting → Point) : Effect r (r.sending E s g now t body next) := by
  unfold sending
  split <;> exact .none rfl rfl

theorem effect_verified (E : Env σ) (g : Greeting) (now : Rat) (message : Option (List UInt8))
    {next : Greeting → Frame → Receiver σ} (hnext : ∀ g frame, Effect r (next g frame)) :
    Effect r (r.verified E s g now message next) := by
  unfold verified
  cases message with
  | none => exact .none rfl rfl
  | some data =>
    dsimp only
    split
    · exact .none rfl rfl
    · exact hnext _ _

theorem effect_hello (E : Env σ) (started now : Rat) (nonce : String) (message : Option (List UInt8)) :
    Effect r (r.hello E s started now nonce message) := by
  unfold hello
  cases message with
  | none => exact .none rfl rfl
  | some data =>
    dsimp only
    cases E.channel.parse data with
    | none => exact .none rfl rfl
    | some parsed =>
      obtain ⟨frame, mac⟩ := parsed
      dsimp only
      split
      · exact .none rfl rfl
      cases E.keyProvider frame.sessionId with
      | none => exact .none rfl rfl
      | some key =>
        dsimp only
        split
        · exact .none rfl rfl
        split
        · exact .none rfl rfl
        · split <;> exact .none rfl rfl

theorem effect_received (E : Env σ) (g : Greeting) (now : Rat) (message : Option (List UInt8)) :
    Effect r (r.received E s g now message) := by
  refine effect_verified E g now message fun g frame => ?_
  split
  · exact .ended s
  split
  · exact effect_sending E g now .pong frame.body .pong
  split
  · exact .none rfl rfl
  · exact .none rfl rfl

theorem answer_frame (g : Greeting) (responses : Responses) (nack : Bool) :
    (r.answer s g responses nack).active = r.active ∧ (r.answer s g responses nack).store = r.store ∧
      (r.answer s g responses nack).trace = r.trace := by
  unfold answer
  cases responses with
  | nil => cases nack <;> exact ⟨rfl, rfl, rfl⟩
  | cons _ _ => exact ⟨rfl, rfl, rfl⟩

theorem effect_answer (g : Greeting) (responses : Responses) (nack : Bool) : Effect r (r.answer s g responses nack) :=
  .none (answer_frame g responses nack).1 (answer_frame g responses nack).2.1

theorem effect_process (E : Env σ) {g : Greeting} {frame : Frame} (h : r.point s = some (.processing g frame)) :
    Effect r (r.process E s g frame) := by
  unfold process
  split
  · exact .batch s g frame h rfl rfl
  · obtain ⟨hact, -, htrace⟩ := answer_frame g _ _
    exact .batch s g frame h hact htrace

theorem effect_move {E : Env σ} {r' : Receiver σ} (h : Move E r r') : Effect r r' := by
  cases h with
  | request s q hp =>
    unfold request
    dsimp only
    split
    · exact .none rfl rfl
    · split <;> exact .none rfl rfl
  | begin s now hp => exact .none rfl rfl
  | abandon s hp => exact .none rfl rfl
  | close s => exact .none rfl rfl
  | hello s started now nonce message hp => exact effect_hello E started now nonce message
  | welcome s g hp => exact .none rfl rfl
  | ready s g now message hp => exact effect_verified E g now message fun g _ => effect_sending E g now _ _ _
  | readyAck s g hp => exact .none rfl rfl
  | acquire s g hp hfree =>
    unfold acquire
    split
    · exact .none rfl rfl
    · exact .newer s rfl rfl rfl
  | replaced s g hp => exact .newer s rfl rfl rfl
  | recv s g now message hp => exact effect_received E g now message
  | pong s g hp => exact .none rfl rfl
  | enter s g frame hp hfree =>
    unfold enter
    split <;> exact .none rfl rfl
  | process s g frame hp => exact effect_process E hp
  | asked s g responses nack ok now hp =>
    unfold asked
    cases responses with
    | nil => exact effect_answer g [] nack
    | cons response rest =>
      dsimp only
      split
      · exact effect_sending E g now _ _ _
      · exact .ended s
  | responded s g responses nack hp => exact effect_answer g responses nack
  | rejected s hp => exact .ended s
  | failed s hp => exact .ended s
  | raise s p hp _ _ _ => exact .none rfl rfl
  | drop s p hp _ _ => exact .ended s

end Receiver

/-- Whatever the sockets do. In the last two parts: the store changes only by a batch of
    the socket that became active last; and the slot of `t` is left to it, emptied by its own
    handler's end, or taken by another socket that becomes active. -/
theorem sockets_exclusive {E : Env σ} {store : σ} {r : Receiver σ} (h : Run E store r) :
    (∀ s g frame, r.point s = some (.processing g frame) → lastActive r.trace = some s) ∧
    (∀ s t g g' f f', r.point s = some (.processing g f) → r.point t = some (.processing g' f') → s = t) ∧
    Ordered r.trace ∧
    (sessions r.trace).Nodup ∧
    r.reserved.card ≤ 2 ∧
    (∀ r', Move E r r' → r'.store ≠ r.store → ∃ s frame, lastActive r.trace = some s ∧
      r'.trace = r.trace ++ [.batch s frame]) ∧
    ∀ r', Move E r r' → ∀ t, r.active = some t → r'.active = some t ∨
      (r'.active = none ∧ r'.point t = some .done) ∨
      ∃ s, r'.active = some s ∧ r'.trace = r.trace ++ [.active s] := by
  have hr := run_ok h
  refine ⟨?_, ?_, hr.batches, ?_, hr.capacity, ?_, ?_⟩
  · intro s g frame hs
    exact hr.latest s (hr.processing s g frame hs)
  · intro s t g g' f f' hs ht
    have h1 := (hr.locked s).mpr ⟨_, hs, trivial⟩
    have h2 := (hr.locked t).mpr ⟨_, ht, trivial⟩
    rw [h1] at h2
    exact Option.some.inj h2
  · rw [hr.hellos.1]
    exact hr.hellos.2
  · intro r' hm hstore
    cases Receiver.effect_move hm with
    | none _ hsame => exact absurd hsame hstore
    | ended s => exact absurd rfl hstore
    | newer s _ hsame _ => exact absurd hsame hstore
    | batch s g frame hs _ htrace => exact ⟨s, frame, hr.latest s (hr.processing s g frame hs), htrace⟩
  · intro r' hm t ht
    cases Receiver.effect_move hm with
    | none hact _ => exact .inl (hact.trans ht)
    | ended s =>
      by_cases e : s = t
      · subst e
        refine .inr (.inl ⟨?_, Receiver.point_goto _ _ _⟩)
        show (if r.active = some s then none else r.active) = none
        rw [if_pos ht]
      · refine .inl ?_
        show (if r.active = some s then none else r.active) = some t
        rw [ht, if_neg (by simpa using Ne.symm e)]
    | newer s hact _ htrace => exact .inr (.inr ⟨s, hact, htrace⟩)
    | batch s g frame _ hact _ => exact .inl (hact.trans ht)

/-! ## A small run -/

/-- The next piece of a handler, with what it receives; nothing where it waits for the lock. -/
def Receiver.go (E : Env σ) (r : Receiver σ) (s : Socket) (message : Option (List UInt8)) : Receiver σ :=
  match r.point s with
  | none => r.request E s ⟨"/offline", ["127.0.0.1:8765"], [E.allowedExtensionOrigin]⟩
  | some .opening => r.goto s (.hello 0)
  | some (.hello started) => r.hello E s started 0 nonceB message
  | some (.welcome g) => r.goto s (.ready g)
  | some (.ready g) => r.welcomed E s g 0 message
  | some (.readyAck g) => r.goto s (.activating g)
  | some (.activating g) => if r.lock = none then r.acquire s g else r
  | some (.replacing g) => r.activate s g
  | some (.recv g) => r.received E s g 0 message
  | some (.pong g) => r.goto s (.recv g)
  | some (.waiting g frame) => if r.lock = none then r.enter s g frame else r
  | some (.processing g frame) => r.process E s g frame
  | some (.asking g responses nack) => r.asked E s g 0 responses nack true
  | some (.responding g responses nack) => r.answer s g responses nack
  | some .rejecting => r.exit s
  | some .failing => r.exit s
  | some .done => r

theorem Run.go {E : Env σ} {store : σ} {r : Receiver σ} (h : Run E store r) (s : Socket) (message : Option (List UInt8)) :
    Run E store (r.go E s message) := by
  unfold Receiver.go
  split <;> rename_i hp
  · exact h.step (.request s _ hp)
  · exact h.step (.begin s 0 hp)
  · exact h.step (.hello s _ 0 nonceB message hp)
  · exact h.step (.welcome s _ hp)
  · exact h.step (.ready s _ 0 message hp)
  · exact h.step (.readyAck s _ hp)
  · split
    · exact h.step (.acquire s _ hp (by assumption))
    · exact h
  · exact h.step (.replaced s _ hp)
  · exact h.step (.recv s _ 0 message hp)
  · exact h.step (.pong s _ hp)
  · split
    · exact h.step (.enter s _ _ hp (by assumption))
    · exact h
  · exact h.step (.process s _ _ hp)
  · exact h.step (.asked s _ _ _ true 0 hp)
  · exact h.step (.responded s _ _ _ hp)
  · exact h.step (.rejected s hp)
  · exact h.step (.failed s hp)
  · exact h

/-- Two bytes name a session and a frame of its client. -/
def smallParse : List UInt8 → Option (Frame × String)
  | [c, n] =>
    let types : List (MessageType × Option String) := [(.hello, none), (.ready, some nonceB), (.batch, none)]
    (types[n.toNat]?).map fun (t, server) =>
      (⟨if c = 1 then "one" else "two", .clientToBackend, plain (n.toNat + 1), t, ⟨some "run", some nonceA, server, ""⟩⟩, "")
  | _ => none

def smallEnv : Env Nat where
  channel := ⟨[], fun _ _ => "", fun _ _ _ => True, fun _ _ _ => .isTrue trivial, fun _ _ => [], smallParse⟩
  keyProvider _ := some (List.replicate 32 7)
  runId := "run"
  allowedExtensionOrigin := "chrome-extension://a"
  processBatch n frame := (n + 1, .ok [(.ack, frame.body)])

/-- Socket 1 reads a batch while socket 2 takes its place; socket 2 reads one too. -/
def smallSchedule : List (Socket × Option (List UInt8)) :=
  [(1, none), (1, none), (1, some [1, 0]), (1, none), (1, some [1, 1]), (1, none), (1, none), (1, some [1, 2]),
   (2, none), (2, none), (2, some [2, 0]), (2, none), (2, some [2, 1]), (2, none), (2, none), (1, none), (2, none),
   (1, none), (1, none), (2, some [2, 2]), (2, none), (2, none)]

def smallReceiver : Receiver Nat := smallSchedule.foldl (fun r (s, m) => r.go smallEnv s m) (.start 0)

theorem smallReceiver_run : Run smallEnv 0 smallReceiver := by
  have hplay (l : List (Socket × Option (List UInt8))) {r : Receiver Nat} (h : Run smallEnv 0 r) :
      Run smallEnv 0 (l.foldl (fun r (s, m) => r.go smallEnv s m) r) := by
    induction l generalizing r with
    | nil => exact h
    | cons e l ih => exact ih (h.go e.1 e.2)
  exact hplay smallSchedule .start

theorem sockets_exclusive_small :
    sessions smallReceiver.trace = ["one", "two"] ∧ smallReceiver.active = some 2 ∧ smallReceiver.store = 1 ∧
    Ordered smallReceiver.trace ∧ smallReceiver.reserved.card ≤ 2 := by
  have h := sockets_exclusive smallReceiver_run
  exact ⟨by decide +kernel, by decide +kernel, by decide +kernel, h.2.2.1, h.2.2.2.2.1⟩

end BettingHelper.Wire
