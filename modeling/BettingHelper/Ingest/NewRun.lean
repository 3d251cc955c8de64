/-
  BettingHelper.Ingest.NewRun — `create_offline_run` on disk: the context it is given, the
  run directory and the store in it.

  The directory, context.json and the tables are made before the seed rows go in, and
  nothing takes them away when a row is refused. Apart from its clock the call is refused
  late for three texts that `validate_context` lets through: a generation above 0, and a
  hash with a newline after it.
-/

import BettingHelper.Ingest.Refinement
import BettingHelper.Wire.Encoding

namespace BettingHelper.Ingest

open BettingHelper.Store BettingHelper.Lib.Json BettingHelper.Wire

/-! ## contracts/offline_slice/v1/context.schema.json -/

/-- The floats of a Python value. -/
structure Floats (F : Type) where
  /-- The integer it is equal to. -/
  whole : F → Option Int
  /-- `rfc8785.dumps` -/
  text : F → Option Text
  written : ∀ x n, whole x = some n → (text x).isSome

inductive ContextCheck where
  | pattern (core : Text → Bool)
  | const (s : String)
  | number (n : Nat)
  | no

variable {F : Type} (f : Floats F)

def ContextCheck.holds : ContextCheck → Value F → Bool
  | .pattern core, .str s => Dialect.python.anchored core s
  | .const c, .str s => s = text c
  | .number n, .int k => k = n
  | .number n, .float x => f.whole x = some (n : Int)
  | .no, .bool b => !b
  | _, _ => false

/-- `chrome-extension://[a-p]{32}` -/
def extensionOrigin (t : Text) : Bool :=
  (text "chrome-extension://").isPrefixOf t && (t.drop 19).length = 32 && (t.drop 19).all fun c => 'a'.toNat ≤ c && c ≤ 'p'.toNat

def contextFields : List (String × ContextCheck) :=
  [("schema_version", .const "offline-run-context/v1"), ("source_kind", .const "SYNTHETIC_TEST"), ("run_id", .pattern uuid4),
    ("browser_run_id", .pattern uuid4), ("producer_id", .pattern uuid4), ("stream_id", .pattern uuid4),
    ("generation", .pattern unsigned), ("backend_url", .const "ws://127.0.0.1:8765/offline"),
    ("allowed_extension_origin", .pattern extensionOrigin), ("max_duration_seconds", .number 600),
    ("max_frame_bytes", .number 262144), ("max_raw_bytes", .number 65536), ("max_batch_records", .number 32),
    ("code_sha256", .pattern hex64), ("vendor_sha256", .pattern hex64), ("schema_lock_sha256", .pattern hex64),
    ("scenario_sha256", .pattern hex64), ("live_authority", .no), ("provider_authority", .no), ("money_authority", .no),
    ("normal_spool_limit_bytes", .pattern positive)]

def contextText (v : Value F) (k : String) : Text := (textAt v k).getD []

/-- `validate_context`: it does not raise. -/
def validateContext (v : Value F) : Bool :=
  closed (ContextCheck.holds f) contextFields v &&
  (1024 ≤ integer (contextText v "normal_spool_limit_bytes") && integer (contextText v "normal_spool_limit_bytes") ≤ 133169152) &&
  integer (contextText v "generation") ≤ maxInteger

/-! ## The run directory -/

/-- What a text of hexadecimal digits spells. -/
def hashText (t : Text) : HashText :=
  ⟨BitVec.ofNat 256 ((t.filterMap hexDigit).foldl (fun n d => 16 * n + d) 0), t.getLast? = some 0x0a⟩

def contextOf (v : Value F) : Context where
  runId := ofText (contextText v "run_id")
  browserRunId := ofText (contextText v "browser_run_id")
  producerId := ofText (contextText v "producer_id")
  streamId := ofText (contextText v "stream_id")
  generation := decimalText (contextText v "generation")
  codeSha256 := hashText (contextText v "code_sha256")
  vendorSha256 := hashText (contextText v "vendor_sha256")

structure RunDirectory where
  /-- context.json -/
  context : Option (List UInt8)
  /-- run.sqlite3 -/
  tables : Option (Db Int)

inductive RunError where
  /-- `E_OFFLINE_SOURCE_BINDING` -/
  | sourceBinding
  /-- `E_OFFLINE_RUN_PATH` -/
  | runPath
  | fileExists
  | serialization
  | store (e : StoreError)

/-- `create_offline_run` of `run_dir`, with what was there: what it returns or raises, and what is
there then. `linked` says that the path goes through a symbolic link. -/
def createRun (h : Hashes) (linked : Bool) (directory : Option RunDirectory) (context : Value F) (now : Int) :
    Except RunError (Db Int) × Option RunDirectory :=
  if validateContext f context then
    if linked then (.error .runPath, directory)
    else
      match directory with
      | some d => (.error .fileExists, some d)
      | none =>
        match dumps f.text context with
        | none => (.error .serialization, some ⟨none, none⟩)
        | some t =>
          match createOfflineRun h (contextOf context) now with
          | .ok db => (.ok db, some ⟨some (encode t), some db⟩)
          | .error e => (.error (.store e), some ⟨some (encode t), some (Db.empty Int)⟩)
  else (.error .sourceBinding, directory)

/-- A run that has begun: nothing in its journal, one generation with this number, and one
controller on the one epoch. (No other status than OPEN is ever recorded of an epoch.) -/
structure Begun (h : Hashes) (db : Db Int) (generation : Nat) : Prop where
  accepted : validateJournal h.cursorStep db = .ok ()
  run : ∃ m, db.runMeta = [m] ∧ m.runStatus = .opened
  generation : ∃ g, db.streamGenerations = [g] ∧ g.generationState = .active ∧ g.position.generation = generation
  controller : ∃ c e, db.coherenceControllers = [c] ∧ db.coherenceEpochs = [e] ∧ c.controllerState = .opened ∧
    c.currentEpochId = e.coherenceEpochId

/-- A store returned is one that has begun; what raises leaves no directory. -/
structure BegunOrGone (h : Hashes) (generation : Nat) (result : Except RunError (Db Int) × Option RunDirectory) : Prop where
  returned : ∀ db, result.1 = .ok db → Begun h db generation ∧ ∃ context, result.2 = some ⟨some context, some db⟩
  raised : ∀ e, result.1 = .error e → result.2 = none

/-! ## What a context accepted looks like -/

variable {f} {v : Value F}

/-- Every field is there, and passes its check. -/
theorem closed_field {κ : Type} {holds : κ → Value F → Bool} {fields : List (String × κ)}
    (h : closed holds fields v = true) (hn : (fields.map (·.1)).Nodup) {k : String} {c : κ} (hk : (k, c) ∈ fields) :
    ∃ w, field v k = some w ∧ holds c w = true := by
  have hin : ∃ m ∈ Wire.members v, m.1 = text k := by
    cases ho : View.object v with
    | none => simp [closed, ho] at h
    | some l =>
      simp only [closed, ho, Option.any_some, Bool.and_eq_true, List.all_eq_true, List.any_eq_true, decide_eq_true_eq] at h
      simpa [Wire.members, ho] using h.2 (k, c) hk
  obtain ⟨m, hm, hmk⟩ := hin
  cases hw : field v k with
  | none =>
    have := List.lookup_eq_none_iff.mp hw m hm
    simp [hmk] at this
  | some w =>
    obtain ⟨g, hg, hgk, hh⟩ := closed_member h (field_mem hw)
    have : g = (k, c) := List.inj_on_of_nodup_map hn hg hk (text_inj hgk)
    exact ⟨w, rfl, by rw [this] at hh; exact hh⟩

theorem contextFields_nodup : (contextFields.map (·.1)).Nodup := by
  simp only [contextFields, List.map]
  decide

theorem validateContext_iff : validateContext f v = true ↔ closed (ContextCheck.holds f) contextFields v = true ∧
    (1024 ≤ integer (contextText v "normal_spool_limit_bytes") ∧ integer (contextText v "normal_spool_limit_bytes") ≤ 133169152) ∧
    integer (contextText v "generation") ≤ maxInteger := by
  simp [validateContext, and_assoc]

theorem context_pattern (h : validateContext f v = true) {k : String} {core : Text → Bool}
    (hk : (k, ContextCheck.pattern core) ∈ contextFields) : Dialect.python.anchored core (contextText v k) = true := by
  obtain ⟨w, hw, hh⟩ := closed_field (validateContext_iff.mp h).1 contextFields_nodup hk
  cases w with
  | str s =>
    rw [contextText, textAt, hw]
    exact hh
  | _ => cases hh

/-- A text that matches has a newline after it or matches as it is. -/
theorem anchored_newline {core : Text → Bool} {t : Text} (h : Dialect.python.anchored core t = true)
    (hcore : ∀ s, core s = true → Neat s) : t.getLast? ≠ some 0x0a ↔ core t = true := by
  constructor
  · intro hlast
    rcases Bool.or_eq_true_iff.mp h with h | h
    · exact h
    · rw [Bool.and_eq_true, decide_eq_true_eq] at h
      exact absurd h.1 hlast
  · exact fun hc => (hcore t hc).2

theorem anchored_ascii {core : Text → Bool} {t : Text} (h : Dialect.python.anchored core t = true)
    (hcore : ∀ s, core s = true → s.all (· < 0x80)) : t.all (· < 0x80) := by
  rcases Bool.or_eq_true_iff.mp h with h | h
  · exact hcore t h
  · rw [Bool.and_eq_true, decide_eq_true_eq] at h
    have hsplit := List.dropLast_append_getLast? _ h.1
    rw [← hsplit, List.all_append, hcore _ h.2]
    rfl

/-- What a check accepts can be written. -/
def ContextCheck.Ascii : ContextCheck → Prop
  | .pattern core => ∀ t, core t = true → t.all (· < 0x80)
  | .const s => (text s).all (· < 0x80)
  | .number n => n ≤ maxSafe
  | .no => True

theorem extensionOrigin_ascii {t : Text} (h : extensionOrigin t = true) : t.all (· < 0x80) := by
  simp only [extensionOrigin, Bool.and_eq_true] at h
  obtain ⟨r, rfl⟩ := List.isPrefixOf_iff_prefix.mp h.1.1
  have hdrop : (text "chrome-extension://" ++ r).drop 19 = r := by
    rw [List.drop_append_of_le_length (by decide)]
    rfl
  rw [hdrop] at h
  rw [List.all_append, Bool.and_eq_true]
  refine ⟨by decide, List.all_eq_true.mpr fun c hc => ?_⟩
  have := List.all_eq_true.mp h.2 c hc
  simp only [Bool.and_eq_true, decide_eq_true_eq] at this ⊢
  exact Nat.lt_of_le_of_lt this.2 (by decide)

theorem contextFields_ascii : ∀ g ∈ contextFields, g.2.Ascii := by
  have hu : ContextCheck.Ascii (.pattern uuid4) := fun t ht => (uuid_neat t ht).1
  have hx : ContextCheck.Ascii (.pattern hex64) := fun t ht => (hex64_neat t ht).1
  have hn : ContextCheck.Ascii (.pattern unsigned) := fun t ht => (unsigned_neat t ht).1
  have hp : ContextCheck.Ascii (.pattern positive) := fun t ht => (positive_neat t ht).1
  have he : ContextCheck.Ascii (.pattern extensionOrigin) := fun t ht => extensionOrigin_ascii ht
  simp only [contextFields, List.forall_mem_cons, hu, hx, hn, hp, he, true_and]
  refine ⟨?_, ?_, ?_, ?_, ?_, ?_, ?_, trivial, trivial, trivial, by simp⟩
  all_goals
    simp only [ContextCheck.Ascii]
    decide

theorem ascii_scalar {t : Text} (h : t.all (· < 0x80)) : t.all isScalar := by
  refine List.all_eq_true.mpr fun c hc => ?_
  have := of_decide_eq_true (List.all_eq_true.mp h c hc)
  simp only [isScalar, Bool.or_eq_true, decide_eq_true_eq]
  omega

theorem holds_written {c : ContextCheck} (hc : c.Ascii) (h : c.holds f v = true) : (dumps f.text v).isSome := by
  cases c with
  | pattern core =>
    cases v with
    | str s =>
      rw [dumps, dumpText, if_pos (ascii_scalar (anchored_ascii h hc))]
      rfl
    | _ => cases h
  | const s =>
    cases v with
    | str u =>
      rw [dumps, dumpText, of_decide_eq_true h, if_pos (ascii_scalar hc)]
      rfl
    | _ => cases h
  | number n =>
    cases v with
    | int k =>
      have hk : k.natAbs ≤ maxSafe := by
        rw [of_decide_eq_true h]
        exact hc
      rw [dumps, if_pos hk]
      rfl
    | float x => exact f.written x n (of_decide_eq_true h)
    | _ => cases h
  | no =>
    cases v with
    | bool b => rfl
    | _ => cases h

theorem dumpMembers_some {ft : F → Option Text} {l : List (Text × Value F)}
    (h : ∀ m ∈ l, m.1.all isScalar ∧ (dumps ft m.2).isSome) : (dumpMembers ft l).isSome := by
  induction l with
  | nil => rfl
  | cons m l ih =>
    obtain ⟨hk, hv⟩ := h m List.mem_cons_self
    obtain ⟨t, ht⟩ := Option.isSome_iff_exists.mp hv
    obtain ⟨ms, hms⟩ := Option.isSome_iff_exists.mp (ih fun n hn => h n (List.mem_cons_of_mem _ hn))
    rw [dumpMembers, dumpText, if_pos hk, ht, hms]
    rfl

theorem context_written (h : validateContext f v = true) : ∃ t, dumps f.text v = some t := by
  have hc := (validateContext_iff.mp h).1
  cases v with
  | obj l =>
    have hms : (dumpMembers f.text l).isSome := by
      refine dumpMembers_some fun m hm => ?_
      obtain ⟨g, hg, hgk, hh⟩ := closed_member hc (show m ∈ Wire.members (.obj l : Value F) from hm)
      refine ⟨?_, holds_written (contextFields_ascii g hg) hh⟩
      rw [← hgk, text, List.all_map, List.all_eq_true]
      exact fun c _ => isScalar_toNat c
    obtain ⟨ms, hms⟩ := Option.isSome_iff_exists.mp hms
    rw [dumps, hms]
    exact ⟨_, rfl⟩
  | _ => cases hc

/-! ## What is left behind -/

theorem begun_fresh {h : Hashes} {c : Context} {now : Int} (ht : 0 ≤ now) (hg : c.generation.value = 0) :
    Begun h ((Ledger.fresh c now).tables h) 0 where
  accepted := (Ledger.fresh_sound ht hg).tables_valid
  run := ⟨_, rfl, rfl⟩
  generation := ⟨_, rfl, rfl, rfl⟩
  controller := ⟨_, _, rfl, rfl, rfl, rfl⟩

/-- The context's texts are those the tables take. -/
structure Seedable (v : Value F) : Prop where
  generation : integer (contextText v "generation") = 0
  vendor : hex64 (contextText v "vendor_sha256") = true
  code : hex64 (contextText v "code_sha256") = true

theorem createOfflineRun_seedable {h : Hashes} {now : Int} {db : Db Int} (hv : validateContext f v = true) :
    createOfflineRun h (contextOf v) now = .ok db ↔
      (Seedable v ∧ 0 ≤ now) ∧ db = (Ledger.fresh (contextOf v) now).tables h := by
  have hvendor := anchored_newline
    (context_pattern hv (show ("vendor_sha256", ContextCheck.pattern hex64) ∈ contextFields by simp [contextFields]))
    hex64_neat
  have hcode := anchored_newline
    (context_pattern hv (show ("code_sha256", ContextCheck.pattern hex64) ∈ contextFields by simp [contextFields]))
    hex64_neat
  rw [Ledger.createOfflineRun_ok]
  refine and_congr ?_ Iff.rfl
  simp only [contextOf, hashText, decimalText, decide_eq_true_eq, not_or]
  constructor
  · rintro ⟨⟨hn, hm⟩, ht, hg⟩
    exact ⟨⟨hg, hvendor.mp hn, hcode.mp hm⟩, ht⟩
  · rintro ⟨⟨hg, hn, hm⟩, ht⟩
    exact ⟨⟨hvendor.mpr hn, hcode.mpr hm⟩, ht, hg⟩

theorem begun_of_seedable {h : Hashes} {linked : Bool} {now : Int} (hv : validateContext f v = true)
    (hs : linked = true ∨ Seedable v ∧ 0 ≤ now) :
    BegunOrGone h (integer (contextText v "generation")) (createRun f h linked none v now) := by
  rw [createRun, if_pos hv]
  rcases hs with rfl | hs
  · exact ⟨fun db hdb => (nomatch hdb), fun _ _ => rfl⟩
  · cases linked with
    | true => exact ⟨fun db hdb => (nomatch hdb), fun _ _ => rfl⟩
    | false =>
      obtain ⟨t, ht⟩ := context_written hv
      have hrun := (createOfflineRun_seedable (h := h) hv).mpr ⟨hs, rfl⟩
      simp only [Bool.false_eq_true, if_false, ht, hrun]
      refine ⟨?_, fun e he => (nomatch he)⟩
      rintro db ⟨⟩
      rw [hs.1.generation]
      exact ⟨begun_fresh hs.2 hs.1.generation, _, rfl⟩

/-- Refused by the tables, the run leaves its directory. -/
theorem seedable_of_begun {h : Hashes} {now : Int} {n : Nat} (hv : validateContext f v = true)
    (hr : BegunOrGone h n (createRun f h false none v now)) : Seedable v ∧ 0 ≤ now := by
  obtain ⟨t, ht⟩ := context_written hv
  cases hrun : createOfflineRun h (contextOf v) now with
  | ok db => exact ((createOfflineRun_seedable hv).mp hrun).1
  | error e =>
    have hout : createRun f h false none v now = (.error (.store e), some ⟨some (encode t), some (Db.empty Int)⟩) := by
      rw [createRun, if_pos hv]
      simp only [Bool.false_eq_true, if_false, ht, hrun]
    rw [hout] at hr
    exact absurd (hr.raised _ rfl) (by simp)

theorem createRun_begun_iff (f : Floats F) (h : Hashes) (linked : Bool) (v : Value F) (now : Int) (hv : validateContext f v = true) :
    BegunOrGone h (integer (contextText v "generation")) (createRun f h linked none v now) ↔
      linked = true ∨ Seedable v ∧ 0 ≤ now := by
  refine ⟨fun hr => ?_, begun_of_seedable hv⟩
  cases linked with
  | true => exact .inl rfl
  | false => exact .inr (seedable_of_begun hv hr)

/-! ### A small context -/

def textFloats : Floats Text := ⟨fun _ => none, some, nofun⟩

def smallRunContext (generation : String) : Doc :=
  .obj [(text "schema_version", str "offline-run-context/v1"), (text "source_kind", str "SYNTHETIC_TEST"),
    (text "run_id", str "00000000-0000-4000-8000-000000000001"), (text "browser_run_id", str "00000000-0000-4000-8000-000000000002"),
    (text "producer_id", str "00000000-0000-4000-8000-000000000003"), (text "stream_id", str "00000000-0000-4000-8000-000000000004"),
    (text "generation", str generation), (text "backend_url", str "ws://127.0.0.1:8765/offline"),
    (text "allowed_extension_origin", str "chrome-extension://abcdefghijklmnopabcdefghijklmnop"),
    (text "max_duration_seconds", .int 600), (text "max_frame_bytes", .int 262144), (text "max_raw_bytes", .int 65536),
    (text "max_batch_records", .int 32),
    (text "code_sha256", str "aaaaaaaaaaaaaaaaaaaaaaaaaaaaaaaaaaaaaaaaaaaaaaaaaaaaaaaaaaaaaaaa"),
    (text "vendor_sha256", str "bbbbbbbbbbbbbbbbbbbbbbbbbbbbbbbbbbbbbbbbbbbbbbbbbbbbbbbbbbbbbbbb"),
    (text "schema_lock_sha256", str "cccccccccccccccccccccccccccccccccccccccccccccccccccccccccccccccc"),
    (text "scenario_sha256", str "dddddddddddddddddddddddddddddddddddddddddddddddddddddddddddddddd"),
    (text "live_authority", .bool false), (text "provider_authority", .bool false), (text "money_authority", .bool false),
    (text "normal_spool_limit_bytes", str "1024")]

def zeroHashes : Hashes := ⟨fun _ => 0, fun _ => 0, fun _ _ _ => 0⟩

theorem smallRunContext_valid : ∀ generation ∈ ["0", "1"], validateContext textFloats (smallRunContext generation) = true := by
  decide +kernel

/-- A run of generation 1 is refused by the trigger, and its directory stays. -/
theorem createRun_successor : validateContext textFloats (smallRunContext "1") = true ∧
    ¬BegunOrGone zeroHashes (integer (contextText (smallRunContext "1") "generation"))
      (createRun textFloats zeroHashes false none (smallRunContext "1") 0) := by
  have hv := smallRunContext_valid "1" (by decide)
  refine ⟨hv, fun hr => ?_⟩
  have := (seedable_of_begun hv hr).1.generation
  revert this
  decide +kernel

theorem createRun_first : BegunOrGone zeroHashes (integer (contextText (smallRunContext "0") "generation"))
      (createRun textFloats zeroHashes false none (smallRunContext "0") 0) ∧
    ∃ db, (createRun textFloats zeroHashes false none (smallRunContext "0") 0).1 = .ok db := by
  have hv := smallRunContext_valid "0" (by decide)
  have hs : Seedable (smallRunContext "0") := ⟨by decide +kernel, by decide +kernel, by decide +kernel⟩
  refine ⟨(createRun_begun_iff textFloats zeroHashes false _ 0 hv).mpr (.inr ⟨hs, by decide⟩), ?_⟩
  obtain ⟨t, ht⟩ := context_written hv
  have hrun := (createOfflineRun_seedable (h := zeroHashes) hv).mpr ⟨⟨hs, Int.le_refl 0⟩, rfl⟩
  rw [createRun, if_pos hv]
  simp only [Bool.false_eq_true, if_false, ht, hrun]
  exact ⟨_, rfl⟩

end BettingHelper.Ingest
