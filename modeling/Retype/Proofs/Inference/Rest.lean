import Mathlib.Algebra.GroupWithZero.Nat
import Retype.Proofs.Inference.Callers
/-!
# Coming to rest

A desk that is left alone runs out of jobs: each job leaves less to do than
there was before it (`work_turn`). And what the calls come to does not depend on
the callers (`settle_calls`): the jobs of callers are passed over where only
calls are looked at. So desks at rest that agree on calls go on to agree
(`attend_calls`).
-/

namespace Retype.Inference

/-- What a job may bring about, itself included: the completion of a call makes
a caller ready, and its first step the completion. -/
def Job.weight : Job → Nat
  | run _ => 3
  | finish _ => 2
  | wake _ => 1

namespace Desk

variable {ε : Type} {maxLength : Int} {s : Desk ε}

/-- What is left to do. A query that waits has its call's first step before it. -/
def work (s : Desk ε) : Nat :=
  3 * s.queue.pending.length + (s.ready.map Job.weight).sum

/-- The desk after it has been left alone. -/
def settle (maxLength : Int) (s : Desk ε) : Desk ε := (turn maxLength)^[s.work] s

theorem turn_of_ready_nil (h : s.ready = []) : s.turn maxLength = s := by
  simp [turn, h]

theorem iterate_turn_of_ready_nil (h : s.ready = []) (n : Nat) : (turn maxLength)^[n] s = s :=
  Function.iterate_fixed (turn_of_ready_nil h) n

theorem work_dispatch (s : Desk ε) : s.dispatch.work = s.work := by
  rcases dispatch_cases s with ⟨he, -⟩ | ⟨e, rest, -, hp, he⟩ <;> rw [he]
  simp [work, hp, Job.weight]
  omega

theorem work_tell_le (s : Desk ε) (k : Nat) (e : Ending ε) : (s.tell k e).work ≤ s.work + 1 := by
  rcases tell_cases s k e with ⟨-, hs⟩ | ⟨-, hs⟩ <;> rw [hs]
  · simp [work, Job.weight]
    omega
  · exact Nat.le_succ _

/-- A job leaves less to do than there was before it. -/
theorem work_turn (maxLength : Int) (h : s.ready ≠ []) : (s.turn maxLength).work < s.work := by
  obtain ⟨job, rest, hr⟩ := List.exists_cons_of_ne_nil h
  have hwork : s.work = work { s with ready := rest } + job.weight := by
    simp [work, hr]
    omega
  simp only [turn, hr, hwork]
  cases job with
  | run e =>
    rw [perform]
    rcases runCall_cases { s with ready := rest } e with ⟨-, hs⟩ | ⟨-, hs⟩ | ⟨-, hs⟩ <;> rw [hs]
    · simp [work, Job.weight]
    · simp [work, Job.weight]
      omega
    · simp [Job.weight]
  | finish k =>
    simp only [perform]
    cases hk : s.call k with
    | ended e =>
      rw [finish_eq (s := { s with ready := rest }) hk]
      have hle := work_tell_le (close { s with ready := rest } k e).dispatch k e
      rw [work_dispatch] at hle
      exact Nat.lt_of_le_of_lt hle (by simp [work, close, Job.weight])
    | _ => simp [finish, hk, Job.weight]
  | wake k =>
    rw [perform]
    rcases wake_cases { s with ready := rest } k maxLength with
      ⟨e, text, -, -, hs⟩ | ⟨e, -, -, hs⟩ | ⟨-, hs⟩ | ⟨-, hs⟩ <;> rw [hs]
    all_goals simp [work, Job.weight]

theorem ready_iterate_turn (n : Nat) (s : Desk ε) (h : s.work ≤ n) :
    ((turn maxLength)^[n] s).ready = [] := by
  by_cases hr : s.ready = []
  · rwa [iterate_turn_of_ready_nil hr]
  · have hlt := work_turn maxLength hr
    cases n with
    | zero => omega
    | succ n =>
      rw [Function.iterate_succ_apply]
      exact ready_iterate_turn n _ (by omega)

/-- **A desk left alone comes to rest.** -/
theorem ready_settle (maxLength : Int) (s : Desk ε) : (s.settle maxLength).ready = [] :=
  ready_iterate_turn s.work s (Nat.le_refl _)

theorem settle_of_ready_nil (h : s.ready = []) : s.settle maxLength = s :=
  iterate_turn_of_ready_nil h _

/-- Two ways of coming to rest end at the same desk. -/
theorem iterate_turn_unique {m n : Nat} (hm : ((turn maxLength)^[m] s).ready = [])
    (hn : ((turn maxLength)^[n] s).ready = []) :
    (turn maxLength)^[m] s = (turn maxLength)^[n] s := by
  have later {i j : Nat} (hij : i ≤ j) (hi : ((turn maxLength)^[i] s).ready = []) :
      (turn maxLength)^[j] s = (turn maxLength)^[i] s := by
    rw [← Nat.sub_add_cancel hij, Function.iterate_add_apply, iterate_turn_of_ready_nil hi]
  rcases Nat.le_total m n with h | h
  · exact (later h hm).symm
  · exact later h hn

/-- A desk at rest after a run is the desk after a longer run. -/
theorem settle_run (maxLength : Int) (xs : List (Happening ε)) :
    ∃ n, (run maxLength xs).settle maxLength = run maxLength (xs ++ List.replicate n .turn) := by
  have run_turns (n : Nat) : run maxLength (xs ++ List.replicate n .turn) =
      (turn maxLength)^[n] (run maxLength xs) := by
    induction n with
    | zero => simp
    | succ n ih =>
      rw [Function.iterate_succ_apply', ← ih, List.replicate_succ', ← List.append_assoc]
      simp [run, step]
  exact ⟨_, (run_turns _).symm⟩

/-! ## The calls by themselves -/

theorem dispatch_calls (s : Desk ε) : s.dispatch.calls = s.calls.dispatch := by
  simp only [dispatch, launch, calls_queue]
  cases s.queue.dispatch.2 <;> simp [calls, Job.ofCall, Event.ofCall]

theorem tell_of_ne_waiting {k : Nat} (hk : s.caller k ≠ .waiting) (e : Ending ε) :
    s.tell k e = s := by
  rcases tell_cases s k e with ⟨hw, -⟩ | ⟨-, hs⟩
  · exact absurd hw hk
  · exact hs

/-- A job of a call does to the calls what it does to the desk. -/
theorem perform_calls (s : Desk ε) {job : Job} (hj : job.ofCall) :
    (s.perform maxLength job).calls = s.calls.perform maxLength job := by
  cases job with
  | run e =>
    rw [perform, perform]
    rcases runCall_cases s e with ⟨hk, hs⟩ | ⟨hk, hs⟩ | ⟨hn, hs⟩
    · rw [hs]
      simp [calls, runCall, hk, Event.ofCall]
    · rw [hs]
      simp [calls, runCall, hk, Job.ofCall, Event.ofCall]
    · rcases runCall_cases s.calls e with ⟨hk, -⟩ | ⟨hk, -⟩ | ⟨-, hs'⟩
      · simp [show s.call e.caller = .created from hk, CallStage.unrun] at hn
      · simp [show s.call e.caller = .givenUp from hk, CallStage.unrun] at hn
      · rw [hs, hs']
  | finish k =>
    simp only [perform]
    cases hk : s.call k with
    | ended e =>
      have hk' : s.calls.call k = .ended e := hk
      have hnobody : (s.calls.close k e).dispatch.caller k ≠ .waiting := by
        rw [dispatch_caller]
        simp [close, calls]
      rw [finish_eq hk, finish_eq hk', tell_calls, dispatch_calls, tell_of_ne_waiting hnobody]
      rfl
    | _ => simp [finish, hk]
  | wake k => cases hj

/-- The jobs of callers are passed over. -/
theorem turn_calls (maxLength : Int) (s : Desk ε) :
    (s.turn maxLength).calls = s.calls ∨ (s.turn maxLength).calls = s.calls.turn maxLength := by
  cases hr : s.ready with
  | nil => exact .inl (by rw [turn_of_ready_nil hr])
  | cons job rest =>
    cases hj : job.ofCall with
    | true =>
      refine .inr ?_
      simp only [turn, hr, calls_ready, List.filter_cons_of_pos hj]
      exact perform_calls _ hj
    | false =>
      cases job with
      | wake k =>
        refine .inl ?_
        simp only [turn, hr, perform, wake_calls]
        simp [calls, hr, Job.ofCall]
      | _ => cases hj

/-- **What the calls come to does not depend on the callers.** -/
theorem settle_calls (s : Desk ε) :
    (s.settle maxLength).calls = s.calls.settle maxLength := by
  have passed (n : Nat) : ∃ m, ((turn maxLength)^[n] s).calls = (turn maxLength)^[m] s.calls := by
    induction n with
    | zero => exact ⟨0, rfl⟩
    | succ n ih =>
      obtain ⟨m, hm⟩ := ih
      rw [Function.iterate_succ_apply']
      rcases turn_calls maxLength ((turn maxLength)^[n] s) with h | h
      · exact ⟨m, h.trans hm⟩
      · exact ⟨m + 1, by rw [h, hm, Function.iterate_succ_apply']⟩
  -- Both ways lead to rest, so they lead to the same calls.
  obtain ⟨m, hm⟩ := passed s.work
  refine hm.trans (iterate_turn_unique ?_ (ready_settle maxLength s.calls))
  rw [← hm]
  simp [show ((turn maxLength)^[s.work] s).ready = [] from ready_settle maxLength s]

/-! ## One thing at a time -/

/-- Things happen one after the other, and the desk is left alone after each. -/
def attend (maxLength : Int) (s : Desk ε) (xs : List (Happening ε)) : Desk ε :=
  xs.foldl (fun s x => (s.step maxLength x).settle maxLength) s

theorem file_calls (s : Desk ε) (q : Query) : (s.file q).calls = (s.calls.file q).calls := by
  simp only [calls, file, List.filter_append, List.filter_filter, Bool.and_self]

theorem callEnds_calls (s : Desk ε) (k : Nat) (e : Ending ε) :
    (s.callEnds k e).calls = (s.calls.callEnds k e).calls := by
  simp only [callEnds, calls_call]
  split <;> simp only [calls, List.filter_append, List.filter_filter, Bool.and_self]

/-- What a desk at rest does about calls is a matter of its calls. -/
theorem step_calls {t : Desk ε} (h : s.calls = t.calls) (hs : s.ready = []) (ht : t.ready = [])
    (x : Happening ε) : (s.step maxLength x).calls = (t.step maxLength x).calls := by
  cases x with
  | put q => rw [Desk.step, Desk.step, put_eq, put_eq, dispatch_calls, dispatch_calls,
      file_calls, h, ← file_calls]
  | callEnds k e => rw [Desk.step, Desk.step, callEnds_calls, h, ← callEnds_calls]
  | cancel k => rw [Desk.step, Desk.step, cancel_calls, cancel_calls, h]
  | parseEnds k p => rw [Desk.step, Desk.step, parseEnds_calls, parseEnds_calls, h]
  | turn => rw [Desk.step, Desk.step, turn_of_ready_nil hs, turn_of_ready_nil ht, h]

theorem attend_calls (xs : List (Happening ε)) {t : Desk ε} (h : s.calls = t.calls)
    (hs : s.ready = []) (ht : t.ready = []) :
    (s.attend maxLength xs).calls = (t.attend maxLength xs).calls := by
  induction xs generalizing s t with
  | nil => exact h
  | cons x xs ih =>
    refine ih ?_ (ready_settle _ _) (ready_settle _ _)
    rw [settle_calls, settle_calls, step_calls h hs ht]

end Desk

end Retype.Inference
