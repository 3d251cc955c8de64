/-
  BettingHelper.Review.Namespace — the commands of a review, run by the broker of its
  namespace: one connection a command, a JSON text each way and no length before it.

  Each side reads once, with `recv`: so many bytes as have come by then, and no more than its
  buffer holds. Proved (`executed_iff`): every command has the outcome of its process exactly
  when each text had come whole and fits its buffer, and each command is the last of its
  argv and directory or has the same id as that one (`Whole`). A reply that is read too early
  is refused (`executed_early`), and so is one that is longer than the buffer.
-/

import BettingHelper.Lib.Checked
import BettingHelper.Lib.JsonAscii
import BettingHelper.Lib.PaddedBase64

namespace BettingHelper.Review.Namespace

open BettingHelper.Lib
open BettingHelper.Lib.Json
open BettingHelper.Lib.PaddedBase64

/-- A command of the registry. -/
structure Command where
  commandId : String
  argv : List String
  cwd : String
  deriving DecidableEq, Repr

structure Completed where
  exitCode : Int
  stdout : List UInt8
  stderr : List UInt8
  deriving DecidableEq, Repr

/-- What happens in the connection of a command: what its process produces, and how many
bytes of the request and of the reply have come when they are read. -/
structure Exchange where
  produced : Completed
  requested : Nat
  replied : Nat
  expired : Bool

/-- `E_REVIEW_NAMESPACE_PROTOCOL`, raised by either side. -/
inductive Protocol where
  | error
  deriving DecidableEq, Repr

/-- `recv(limit)` -/
def recv (limit come : Nat) (stream : List UInt8) : List UInt8 := stream.take (min limit come)

/-! ## Texts -/

def request (authorizationId : String) (sequence : Nat) (commandId : String) : List (String × Doc) :=
  [("authorization_id", str authorizationId), ("command_id", str commandId), ("sequence", .int sequence)]

def reply (completed : Completed) : List (String × Doc) :=
  [("exit_code", .int completed.exitCode), ("stderr", .str (b64encode completed.stderr)),
    ("stdout", .str (b64encode completed.stdout))]

/-- The bytes of the request, without the newline after it. -/
def requestBytes (authorizationId : String) (sequence : Nat) (commandId : String) : List UInt8 :=
  encode (asciiDumps (record (request authorizationId sequence commandId)))

def replyBytes (completed : Completed) : List UInt8 := encode (asciiDumps (record (reply completed)))

/-! ## The two sides -/

/-- `mapped.get((tuple(argv), cwd))`: of several commands the last. -/
def mapped (commands : List Command) (argv : List String) (cwd : String) : Option String :=
  (commands.reverse.find? fun c => c.argv = argv ∧ c.cwd = cwd).map (·.commandId)

/-- The names of an object are these, in any order. -/
def hasNames (l : List (Text × Doc)) (names : List String) : Bool :=
  (l.map (·.1)).all (· ∈ names.map text) && (names.map text).all (· ∈ l.map (·.1))

/-- One turn of the loop of `_run_namespace_broker`. -/
def serve (authorizationId : String) (sequence : Nat) (commandId : String) (e : Exchange) (stream : List UInt8) :
    Except Protocol (List UInt8) :=
  match loadsBytes (recv 4096 e.requested stream) with
  | some (.obj l) =>
    if !hasNames l ["authorization_id", "sequence", "command_id"] || l.lookup (text "authorization_id") ≠ some (str authorizationId) ||
        l.lookup (text "sequence") ≠ some (.int sequence) || l.lookup (text "command_id") ≠ some (str commandId) then .error .error
    else if e.expired then .error .error
    else .ok (replyBytes e.produced)
  | _ => .error .error

/-- What `_namespace_request` makes of the response. -/
def readReply (response : List UInt8) : Except Protocol Completed :=
  match loadsBytes response with
  | some (.obj l) =>
    match l.lookup (text "stdout"), l.lookup (text "stderr"), l.lookup (text "exit_code") with
    | some (.str out), some (.str err), some code =>
      match b64decode out, b64decode err, code with
      | some out, some err, .int n => if hasNames l ["exit_code", "stdout", "stderr"] then .ok ⟨n, out, err⟩ else .error .error
      | some out, some err, .bool b =>
        if hasNames l ["exit_code", "stdout", "stderr"] then .ok ⟨if b then 1 else 0, out, err⟩ else .error .error
      | _, _, _ => .error .error
    | _, _, _ => .error .error
  | _ => .error .error

/-- `execute` of `_execute_in_namespace`, with the broker at the other end: the `sequence`-th
command, of which the broker expects the id. -/
def execute (commands : List Command) (authorizationId : String) (sequence : Nat) (command : Command) (e : Exchange) :
    Except Protocol Completed :=
  match mapped commands command.argv command.cwd with
  | none => .error .error
  | some commandId =>
    let encoded := requestBytes authorizationId sequence commandId ++ encode ['\n'.toNat]
    if encoded.length > 4096 then .error .error
    else
      match serve authorizationId sequence command.commandId e encoded with
      | .error _ => .error .error
      | .ok response => readReply (recv 1048576 e.replied response)

/-- The commands in order, from the `sequence`-th on. -/
def executeFrom (commands : List Command) (authorizationId : String) : Nat → List (Command × Exchange) → Except Protocol (List Completed)
  | _, [] => .ok []
  | sequence, (command, e) :: l => do
    let completed ← execute commands authorizationId sequence command e
    let rest ← executeFrom commands authorizationId (sequence + 1) l
    .ok (completed :: rest)

/-- All the commands, each with its exchange. -/
def executeAll (authorizationId : String) (l : List (Command × Exchange)) : Except Protocol (List Completed) :=
  executeFrom (l.map (·.1)) authorizationId 0 l

/-- The texts of an exchange come whole, and the command is told from the others. -/
structure Whole (commands : List Command) (authorizationId : String) (sequence : Nat) (command : Command) (e : Exchange) : Prop where
  told : mapped commands command.argv command.cwd = some command.commandId
  requestFits : (requestBytes authorizationId sequence command.commandId).length + 1 ≤ 4096
  requestCame : (requestBytes authorizationId sequence command.commandId).length ≤ e.requested
  replyFits : (replyBytes e.produced).length ≤ 1048576
  replyCame : (replyBytes e.produced).length ≤ e.replied

/-! ## Texts that are read back -/

theorem simple_str (s : String) : Simple (str s) := by
  refine paired_scalar (List.all_eq_true.mpr fun c hc => ?_)
  obtain ⟨d, -, rfl⟩ := List.mem_map.mp hc
  exact isScalar_toNat d

theorem simple_base64 (b : List UInt8) : Simple (.str (b64encode b)) :=
  paired_ascii (List.all_eq_true.mpr fun c hc => decide_eq_true (b64encode_ascii b c hc))

/-- The members of a request. -/
def requestMembers (authorizationId : String) (sequence : Nat) (commandId : String) : List (Text × Doc) :=
  [(text "authorization_id", str authorizationId), (text "command_id", str commandId), (text "sequence", .int sequence)]

def replyMembers (completed : Completed) : List (Text × Doc) :=
  [(text "exit_code", .int completed.exitCode), (text "stderr", .str (b64encode completed.stderr)),
    (text "stdout", .str (b64encode completed.stdout))]

section Members

variable (authorizationId : String) (sequence : Nat) (commandId : String) (completed : Completed)

theorem request_flat : Flat (requestMembers authorizationId sequence commandId) := by
  refine ⟨?_, ?_, ?_⟩
  · simp only [requestMembers, List.map]
    decide
  · simp only [requestMembers, List.forall_mem_cons]
    exact ⟨by decide, by decide, by decide, by simp⟩
  · simp only [requestMembers, List.forall_mem_cons]
    exact ⟨simple_str _, simple_str _, trivial, by simp⟩

theorem reply_flat : Flat (replyMembers completed) := by
  refine ⟨?_, ?_, ?_⟩
  · simp only [replyMembers, List.map]
    decide
  · simp only [replyMembers, List.forall_mem_cons]
    exact ⟨by decide, by decide, by decide, by simp⟩
  · simp only [replyMembers, List.forall_mem_cons]
    exact ⟨trivial, simple_base64 _, simple_base64 _, by simp⟩

theorem requestBytes_eq :
    requestBytes authorizationId sequence commandId = encode (asciiDumps (.obj (requestMembers authorizationId sequence commandId))) :=
  congrArg (fun l => encode (asciiDumps (.obj l))) (dict_eq (request_flat authorizationId sequence commandId).sorted)

theorem replyBytes_eq : replyBytes completed = encode (asciiDumps (.obj (replyMembers completed))) :=
  congrArg (fun l => encode (asciiDumps (.obj l))) (dict_eq (reply_flat completed).sorted)

theorem request_names : hasNames (requestMembers authorizationId sequence commandId) ["authorization_id", "sequence", "command_id"] = true := by
  rfl

theorem reply_names : hasNames (replyMembers completed) ["exit_code", "stdout", "stderr"] = true := by
  rfl

end Members

/-! ## One exchange -/

/-- The broker reads the request, and finds in it the id it waits for. -/
theorem serve_ok {authorizationId commandId sent : String} {sequence : Nat} {e : Exchange} {response : List UInt8} (he : e.expired = false) :
    serve authorizationId sequence commandId e (requestBytes authorizationId sequence sent ++ encode ['\n'.toNat]) = .ok response ↔
      (requestBytes authorizationId sequence sent).length ≤ min 4096 e.requested ∧ sent = commandId ∧ response = replyBytes e.produced := by
  have hjoin : requestBytes authorizationId sequence sent ++ encode ['\n'.toNat] =
      encode (asciiDumps (.obj (requestMembers authorizationId sequence sent)) ++ ['\n'.toNat]) := by
    rw [requestBytes_eq]
    exact List.flatMap_append.symm
  rw [hjoin, serve, recv, loadsBytes_take (request_flat _ _ _) (.inr rfl), ← requestBytes_eq]
  by_cases hlen : (requestBytes authorizationId sequence sent).length ≤ min 4096 e.requested
  · have hauth : (requestMembers authorizationId sequence sent).lookup (text "authorization_id") = some (str authorizationId) := rfl
    have hseq : (requestMembers authorizationId sequence sent).lookup (text "sequence") = some (.int sequence) := rfl
    have hcommand : (requestMembers authorizationId sequence sent).lookup (text "command_id") = some (str sent) := rfl
    have hstr : some (str sent) ≠ some (str commandId) ↔ sent ≠ commandId := by
      rw [ne_eq, Option.some.injEq]
      exact not_congr ⟨fun h => text_inj (Value.str.inj h), fun h => by rw [h]⟩
    rw [if_pos hlen]
    simp only [request_names, hauth, hseq, hcommand, he, ne_eq, not_true, decide_false, Bool.not_true, Bool.or_false, Bool.false_or,
      Bool.false_eq_true, if_false, decide_eq_true_eq]
    by_cases hid : sent = commandId
    · subst hid
      simp [hlen, eq_comm]
    · rw [if_pos (hstr.mpr hid)]
      exact ⟨fun h => (nomatch h), fun h => absurd h.2.1 hid⟩
  · rw [if_neg hlen]
    exact ⟨fun h => (nomatch h), fun h => absurd h.1 hlen⟩

/-- The client reads the reply when it has come whole and fits. -/
theorem readReply_ok {completed r : Completed} {n : Nat} :
    readReply (recv 1048576 n (replyBytes completed)) = .ok r ↔ (replyBytes completed).length ≤ min 1048576 n ∧ r = completed := by
  have htake := loadsBytes_take (reply_flat completed) (.inl rfl) (min 1048576 n)
  rw [List.append_nil, ← replyBytes_eq] at htake
  rw [readReply, recv, htake]
  by_cases hlen : (replyBytes completed).length ≤ min 1048576 n
  · have hout : (replyMembers completed).lookup (text "stdout") = some (.str (b64encode completed.stdout)) := rfl
    have herr : (replyMembers completed).lookup (text "stderr") = some (.str (b64encode completed.stderr)) := rfl
    have hcode : (replyMembers completed).lookup (text "exit_code") = some (.int completed.exitCode) := rfl
    rw [if_pos hlen]
    simp only [hout, herr, hcode, b64decode_encode, reply_names, if_true, hlen, true_and, Except.ok.injEq]
    exact eq_comm
  · rw [if_neg hlen]
    exact ⟨fun h => (nomatch h), fun h => absurd h.1 hlen⟩

/-- One command has an outcome exactly when its texts come whole, and it is the outcome of its process. -/
theorem execute_ok {commands : List Command} {authorizationId : String} {sequence : Nat} {command : Command} {e : Exchange} {r : Completed}
    (he : e.expired = false) :
    execute commands authorizationId sequence command e = .ok r ↔
      Whole commands authorizationId sequence command e ∧ r = e.produced := by
  rw [execute]
  cases hm : mapped commands command.argv command.cwd with
  | none =>
    refine ⟨fun h => (nomatch h), fun ⟨hw, _⟩ => ?_⟩
    rw [hw.told] at hm
    cases hm
  | some sent =>
    have hone : (encode ['\n'.toNat]).length = 1 := by decide
    have hlength : (requestBytes authorizationId sequence sent ++ encode ['\n'.toNat]).length =
        (requestBytes authorizationId sequence sent).length + 1 := by rw [List.length_append, hone]
    simp only [hlength]
    by_cases hfits : (requestBytes authorizationId sequence sent).length + 1 > 4096
    · rw [if_pos hfits]
      refine ⟨fun h => (nomatch h), fun ⟨hw, _⟩ => ?_⟩
      have htold := hw.told
      rw [hm, Option.some.injEq] at htold
      have := hw.requestFits
      rw [← htold] at this
      omega
    · rw [if_neg hfits]
      cases hs : serve authorizationId sequence command.commandId e (requestBytes authorizationId sequence sent ++ encode ['\n'.toNat]) with
      | error _ =>
        refine ⟨fun h => (nomatch h), fun ⟨hw, _⟩ => ?_⟩
        have htold := hw.told
        rw [hm, Option.some.injEq] at htold
        have hcame := hw.requestCame
        rw [← htold] at hcame
        rw [(serve_ok he).mpr ⟨by omega, htold, rfl⟩] at hs
        cases hs
      | ok response =>
        obtain ⟨hcame, rfl, rfl⟩ := (serve_ok he).mp hs
        simp only [readReply_ok]
        constructor
        · intro ⟨hreply, hr⟩
          exact ⟨⟨hm, by omega, by omega, by omega, by omega⟩, hr⟩
        · intro ⟨hw, hr⟩
          have := hw.replyFits
          have := hw.replyCame
          exact ⟨by omega, hr⟩

/-! ## All the commands -/

/-- Each exchange from the `sequence`-th on comes whole. -/
def AllWhole (commands : List Command) (authorizationId : String) : Nat → List (Command × Exchange) → Prop
  | _, [] => True
  | sequence, (command, e) :: l => Whole commands authorizationId sequence command e ∧ AllWhole commands authorizationId (sequence + 1) l

theorem executeFrom_ok {commands : List Command} {authorizationId : String} {sequence : Nat} {l : List (Command × Exchange)}
    {r : List Completed} (hl : ∀ x ∈ l, x.2.expired = false) :
    executeFrom commands authorizationId sequence l = .ok r ↔
      AllWhole commands authorizationId sequence l ∧ r = l.map (·.2.produced) := by
  induction l generalizing sequence r with
  | nil =>
    rw [executeFrom, Except.ok.injEq]
    simp [AllWhole, eq_comm]
  | cons x l ih =>
    obtain ⟨command, e⟩ := x
    obtain ⟨he, hl⟩ := List.forall_mem_cons.mp hl
    rw [executeFrom, bind_ok]
    constructor
    · intro ⟨completed, hcompleted, h⟩
      obtain ⟨rest, hrest, h⟩ := bind_ok.mp h
      obtain ⟨hw, rfl⟩ := (execute_ok he).mp hcompleted
      obtain ⟨hall, rfl⟩ := (ih hl).mp hrest
      cases h
      exact ⟨⟨hw, hall⟩, rfl⟩
    · intro ⟨⟨hw, hall⟩, hr⟩
      subst hr
      exact ⟨_, (execute_ok he).mpr ⟨hw, rfl⟩, bind_ok.mpr ⟨_, (ih hl).mpr ⟨hall, rfl⟩, rfl⟩⟩

theorem allWhole_iff {commands : List Command} {authorizationId : String} {sequence : Nat} {l : List (Command × Exchange)} :
    AllWhole commands authorizationId sequence l ↔
      ∀ i (hi : i < l.length), Whole commands authorizationId (sequence + i) l[i].1 l[i].2 := by
  induction l generalizing sequence with
  | nil => simp [AllWhole]
  | cons x l ih =>
    obtain ⟨command, e⟩ := x
    rw [AllWhole, ih]
    constructor
    · intro ⟨hw, hall⟩ i hi
      cases i with
      | zero => exact hw
      | succ i =>
        have := hall i (Nat.lt_of_succ_lt_succ hi)
        rw [Nat.add_assoc, Nat.add_comm 1 i] at this
        exact this
    · intro h
      refine ⟨h 0 (Nat.succ_pos _), fun i hi => ?_⟩
      have := h (i + 1) (Nat.succ_lt_succ hi)
      rw [Nat.add_assoc, Nat.add_comm 1 i]
      exact this

/-- While the authorization lasts, every command has the outcome of its process and no side raises
exactly when the texts of every exchange come whole. -/
theorem executed_iff (authorizationId : String) (l : List (Command × Exchange)) (hl : ∀ x ∈ l, x.2.expired = false) :
    executeAll authorizationId l = .ok (l.map (·.2.produced)) ↔
      ∀ i (hi : i < l.length), Whole (l.map (·.1)) authorizationId i l[i].1 l[i].2 := by
  rw [executeAll, executeFrom_ok hl, allWhole_iff]
  simp

/-- A command that writes nothing, and of which all the bytes have come. -/
theorem executed_quiet :
    executeAll "a" [(⟨"c", ["true"], "/"⟩, ⟨⟨0, [], []⟩, 4096, 4096, false⟩)] = .ok [⟨0, [], []⟩] ↔
      ∀ i (hi : i < [((⟨"c", ["true"], "/"⟩, ⟨⟨0, [], []⟩, 4096, 4096, false⟩) : Command × Exchange)].length),
        Whole [⟨"c", ["true"], "/"⟩] "a" i [((⟨"c", ["true"], "/"⟩, ⟨⟨0, [], []⟩, 4096, 4096, false⟩) : Command × Exchange)][i].1
          [((⟨"c", ["true"], "/"⟩, ⟨⟨0, [], []⟩, 4096, 4096, false⟩) : Command × Exchange)][i].2 :=
  executed_iff "a" [(⟨"c", ["true"], "/"⟩, ⟨⟨0, [], []⟩, 4096, 4096, false⟩)] (by simp)

/-- The same command, of whose reply one byte has come when the client reads it. -/
theorem executed_early :
    executeAll "a" [(⟨"c", ["true"], "/"⟩, ⟨⟨0, [], []⟩, 4096, 1, false⟩)] ≠ .ok [⟨0, [], []⟩] := by
  intro h
  have hw := (executeFrom_ok (by simp)).mp h
  have hcame := hw.1.1.replyCame
  have hlen : (replyBytes ⟨0, [], []⟩).length = 39 := by decide
  rw [hlen] at hcame
  exact absurd hcame (by decide)

end BettingHelper.Review.Namespace
