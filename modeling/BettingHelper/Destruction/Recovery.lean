/-
  BettingHelper.Destruction.Recovery — what one recovery, run to its end, makes of any state
  the calls before it left.

  Proved: `recover_iff`. Once the consumption is committed, a recovery returns with both
  stores deleted, the plan's intent and a proof that passes its own check, exactly when
  none of the three files was left torn. A torn file is not begun again: its bytes are
  compared (`immutable_json`) or loaded (`write_proof`), and the call raises; no later call
  changes a file that is there (`execute_lasting`), so it raises every time after.
-/

import BettingHelper.Destruction.Safety

namespace BettingHelper.Destruction

open BettingHelper.Lib.Json BettingHelper.Lib.Crash

variable {t : Trust} {p : Plan} {c : Config} {x : Call} {s u : Case}

/-- What a recovery is for. -/
structure Recovered (t : Trust) (p : Plan) (s u : Case) : Prop where
  database : u.database = none
  browser : u.browser = none
  intent : u.files .intent = some p.intent.doc.bytes
  proof : ∃ b d, u.files .deletionProof = some b ∧ readDoc b = some d ∧ checkProof t p d = .ok ()
  committed : u.committed = s.committed

theorem Destroyed.recovered (hd : Destroyed t p u) (hv : p.Valid t) (hc : s.committed = [consumption t p]) :
    Recovered t p s u := by
  obtain ⟨id, hid⟩ := hd.proof
  exact ⟨hd.database, hd.browser, hd.intent, ⟨_, _, hid, readDoc_bytes (DeletionProof.doc_plain _), checkProof_ok hv id⟩,
    by rw [hd.committed, hc]⟩

/-- A recovery of a run whose consumption was committed ends as it should exactly when
every file it finds is complete. -/
theorem recover_iff (h : Reach t p c s) (hc : s.committed ≠ []) (hx : x.recover = true) :
    (execute t p c x s).result = .ok () ∧ Recovered t p s ((execute t p c x s).final s) ↔ Untorn t p s := by
  have hi := reach_inv h
  have hm := execute_meets (x := x) hi
  constructor
  · rintro ⟨hok, -⟩
    exact (hm.returns () hok hx hc).1
  · intro hun
    cases hres : (execute t p c x s).result with
    | ok a =>
      have hd := (hm.returns a hres hx hc).2
      exact ⟨rfl, hd.recovered (validatePlan_ok (hi.authorized hc).valid) (hi.row hc)⟩
    | error e => exact absurd hun (hm.raises e hres hx hc)

/-- Killed right after its commit, the small run is recovered. -/
theorem recover_iff_small :
    (execute smallTrust smallPlan smallConfig ⟨true, 7, 0⟩
      (smallCase.consumed smallDatabase (consumption smallTrust smallPlan))).result = .ok () :=
  ((recover_iff small_startable.reach_committed (by simp [Case.consumed]) rfl).mpr small_startable.untorn).1

/-! ## A file that is there stays -/

def Grows (s u : Case) : Prop := ∀ f b, s.files f = some b → u.files f = some b

/-- Whatever the call writes and however it ends, a file that was there is as it was. -/
def Lasting {α : Type} (q : Action α) : Prop :=
  ∀ s, Meets q s (fun _ u => Grows s u) (fun _ u => Grows s u) (fun _ u => Grows s u)

section

variable {α β : Type}

theorem Grows.trans {v : Case} (h : Grows s u) (h' : Grows u v) : Grows s v := fun f b hb => h' f b (h f b hb)

theorem Lasting.bind {q : Action α} {r : α → Action β} (hq : Lasting q) (hr : ∀ a, Lasting (r a)) : Lasting (q >>= r) := by
  intro s
  refine (hq s).bind fun a u hu => ?_
  exact (hr a u).mono (fun _ _ h => hu.trans h) (fun _ _ h => hu.trans h) fun _ _ h => hu.trans h

end

/-- Killed between creating the copy of the consumption and writing it. -/
theorem recovery_refused : ∃ s, Reach smallTrust smallPlan smallConfig s ∧
    s.committed = [consumption smallTrust smallPlan] ∧ s.files .consumedExternal = some [] ∧
    ∀ x : Call, x.recover = true → (execute smallTrust smallPlan smallConfig x s).result ≠ .ok () := by
  refine ⟨_, small_startable.reach_torn, rfl, put_file _ _ _, ?_⟩
  intro x hx hok
  have hm := execute_meets (x := x) (reach_inv small_startable.reach_torn)
  obtain ⟨hun, -⟩ := hm.returns () hok hx (by simp [Case.consumed, Case.put])
  have hempty : [] = (consumption smallTrust smallPlan).doc.bytes := hun.consumed [] (put_file _ _ _)
  -- an empty file is no document
  have hr := readDoc_bytes (consumption_plain (t := smallTrust) (p := smallPlan))
  rw [← hempty] at hr
  cases hr

end BettingHelper.Destruction
