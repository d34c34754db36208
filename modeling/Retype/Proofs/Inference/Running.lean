import Retype.Proofs.Inference.Delivery
/-!
# The queue as it runs

`QueueState.step` takes what happens to a queue one thing at a time and does at
once what follows from it. That is the desk left alone after each thing, with
parses that return at once: it does the same with the queue, keeps the same
callers, and the same can be seen of it.
-/

namespace Retype.Inference

variable {ε : Type} {maxLength : Int} {parseType : String → Option Json}

/-- What a caller gets, the error that broke its call left out. -/
def Reply.outcome : Reply ε → Outcome
  | type node => .result node
  | raised _ => .raised
  | cancelled => .cancelled

/-- The return of a parse that either gives a node or is refused. -/
def ParseEnd.of (node : Option Json) : ParseEnd ε :=
  match node with
  | some node => .type node
  | none => .refused

/-- What can be seen of an event. -/
@[simp] def Event.shown? : Event ε → Option (QueueEvent Nat)
  | ask e => some (.ask e.query)
  | heard _ (.parse text) => some (.parse text)
  | heard k (.done reply) => some (.done k reply.outcome)
  | gone k => some (.done k .cancelled)
  | _ => none

/-- What is done to a queue from outside. -/
inductive Act (ε : Type) where
  | put (q : Query)
  | ends (e : Ending ε)
  | leave (k : Nat)

/-- The same for the queue as it runs, queries numbered as they come. -/
def Act.input (count : Nat) : Act ε → QueueInput Nat
  | put q => .submit ⟨count, q⟩
  | ends e => .callEnds e.callEnd
  | leave k => .stopWaiting k

theorem outcomeOf_text {e : Ending ε} {text : String}
    (h : textToParse maxLength e.callEnd = some text) :
    outcomeOf maxLength parseType e.callEnd =
      (ParseEnd.of (parseType text) : ParseEnd ε).reply.outcome := by
  cases e <;> simp [textToParse, Ending.callEnd] at h
  simp only [Ending.callEnd, outcomeOf, h, Option.bind_some]
  cases parseType text <;> rfl

theorem outcomeOf_no_text {e : Ending ε} (h : textToParse maxLength e.callEnd = none) :
    outcomeOf maxLength parseType e.callEnd = e.reply.outcome := by
  cases e <;> simp_all [textToParse, Ending.callEnd, outcomeOf, Ending.reply, Reply.outcome]

/-- The number of the next query after it. -/
def Act.next (count : Nat) : Act ε → Nat
  | put _ => count + 1
  | _ => count

/-- A sequence of what is done, for the queue as it runs. -/
def Act.inputs (count : Nat) : List (Act ε) → List (QueueInput Nat)
  | [] => []
  | x :: rest => x.input count :: inputs (x.next count) rest

/-- The queue as it runs, with all that has been shown. -/
def QueueState.advance (maxLength : Int) (parseType : String → Option Json)
    (r : QueueState Nat × List (QueueEvent Nat)) (i : QueueInput Nat) :
    QueueState Nat × List (QueueEvent Nat) :=
  let next := r.1.step maxLength parseType i
  (next.1, r.2 ++ next.2)

namespace Desk

variable {s : Desk ε} {k : Nat}

/-- The parse of an answer, if there is one to parse, returns. -/
def parseAtOnce (maxLength : Int) (parseType : String → Option Json) (s : Desk ε) (k : Nat)
    (e : Ending ε) : Desk ε :=
  match textToParse maxLength e.callEnd with
  | some text => s.parseEnds k (.of (parseType text))
  | none => s

/-- A desk at which something is done, after which it is left alone; an answer
that is parsed is parsed at once. -/
def act (maxLength : Int) (parseType : String → Option Json) (s : Desk ε) : Act ε → Desk ε
  | .put q => (s.put q).settle maxLength
  | .ends e =>
    match s.queue.active with
    | none => s
    | some a =>
      ((s.callEnds a.caller e).settle maxLength).parseAtOnce maxLength parseType a.caller e
  | .leave k => (s.cancel k).settle maxLength

/-- The callers that wait, in order. -/
def waiters (n : Nat) (caller : Nat → CallerStage ε) : List Nat :=
  (List.range n).filter fun k => caller k matches .waiting

theorem waiters_arrive (n : Nat) (caller : Nat → CallerStage ε) :
    waiters (n + 1) (Function.update caller n .waiting) = waiters n caller ++ [n] := by
  have hold : (List.range n).filter
      (fun k => Function.update caller n .waiting k matches .waiting) = waiters n caller :=
    List.filter_congr fun k hk => by
      have hne : k ≠ n := Nat.ne_of_lt (List.mem_range.1 hk)
      simp [hne]
  rw [waiters, List.range_succ, List.filter_append, hold]
  simp

theorem waiters_leave {c : CallerStage ε} (hc : c ≠ .waiting) (n k : Nat)
    (caller : Nat → CallerStage ε) :
    waiters n (Function.update caller k c) = (waiters n caller).filter (· ≠ k) := by
  rw [waiters, waiters, List.filter_filter]
  refine List.filter_congr fun j _ => ?_
  rcases eq_or_ne j k with rfl | hne
  · cases c <;> simp at hc ⊢
  · simp [hne]

theorem mem_waiters {n k : Nat} {caller : Nat → CallerStage ε} :
    k ∈ waiters n caller ↔ k < n ∧ caller k = .waiting := by
  rw [waiters, List.mem_filter, List.mem_range]
  cases caller k <;> simp

/-- The desk as the queue that runs knows it. -/
def state (s : Desk ε) : QueueState Nat := ⟨s.queue, waiters s.count s.caller⟩

/-- A desk between two things that happen to it. -/
structure Steady (maxLength : Int) (s : Desk ε) : Prop where
  reached : ∃ xs, s = run maxLength xs
  rest : s.ready = []
  parsing : ∀ k, s.caller k ≠ .parsing

theorem settle_cons {job : Job} {rest : List Job} (hr : s.ready = job :: rest) :
    s.settle maxLength = ({ s with ready := rest }.perform maxLength job).settle maxLength := by
  have hturn : ({ s with ready := rest }.perform maxLength job) = s.turn maxLength := by
    simp [turn, hr]
  rw [hturn]
  refine iterate_turn_unique (ready_settle _ s) (n := (s.turn maxLength).work + 1) ?_
  rw [Function.iterate_succ_apply]
  exact ready_settle _ _

namespace Steady

variable (h : Steady maxLength s)
include h

theorem lined : Lined s := by
  obtain ⟨xs, rfl⟩ := h.reached
  exact lined_run _ xs

theorem scheduled : Scheduled s := by
  obtain ⟨xs, rfl⟩ := h.reached
  exact scheduled_run _ xs

/-- Whatever happens then, and whatever turns follow, is part of a run. -/
theorem reached_settle (x : Happening ε) :
    ∃ xs, (s.step maxLength x).settle maxLength = run maxLength xs := by
  obtain ⟨xs, rfl⟩ := h.reached
  obtain ⟨n, hn⟩ := settle_run maxLength (xs ++ [x])
  exact ⟨xs ++ [x] ++ List.replicate n .turn, by rw [← hn]; simp [run]⟩

/-- Between two things a caller has been told only if it waits. -/
theorem caller_cases (k : Nat) :
    s.caller k = .absent ∨ s.caller k = .waiting ∨ s.caller k = .gone := by
  have hw := (h.scheduled.wakes k).not.1 (by simp [h.rest])
  cases hc : s.caller k with
  | absent => exact .inl rfl
  | waiting => exact .inr (.inl rfl)
  | gone => exact .inr (.inr rfl)
  | parsing => exact absurd hc (h.parsing k)
  | told e | leaving => simp [hc, CallerStage.woken] at hw

end Steady

/-- The queue that runs does what the desk does: the same is done with the
queue, the same callers are left, and the same is shown. -/
structure Mirrored (maxLength : Int) (parseType : String → Option Json) (s : Desk ε) (x : Act ε)
    (t : Desk ε) : Prop where
  steady : Steady maxLength t
  count : t.count = x.next s.count
  step : ∃ shown, t.log.filterMap Event.shown? = s.log.filterMap Event.shown? ++ shown ∧
    s.state.step maxLength parseType (x.input s.count) = (t.state, shown)

/-- A query is put. -/
theorem act_put (h : Steady maxLength s) (q : Query) :
    Mirrored maxLength parseType s (.put q) (s.act maxLength parseType (.put q)) := by
  have hreached := h.reached_settle (.put q)
  simp only [Desk.step] at hreached
  have hparsing k : Function.update s.caller s.count (.waiting : CallerStage ε) k ≠ .parsing := by
    rcases eq_or_ne k s.count with rfl | hne
    · simp
    · simpa [hne] using h.parsing k
  simp only [act]
  cases ha : s.queue.active with
  | some a =>
    have hput : s.put q = s.file q := by
      rw [put_eq]
      simp [dispatch, file, Queue.dispatch, ha, launch]
    have hready : (s.file q).ready = [] := h.rest
    rw [hput, settle_of_ready_nil hready] at hreached ⊢
    refine ⟨⟨hreached, hready, hparsing⟩, rfl, [], by simp [file, List.filterMap_cons], ?_⟩
    simp [QueueState.step, Act.input, state, Queue.submit_busy ha, file, waiters_arrive, ha,
      QueueState.started]
  | none =>
    have hp := h.lined.busy ha
    have hrun : (s.put q).settle maxLength = { s with
        count := s.count + 1
        queue := ⟨[], some ⟨s.count, q⟩⟩
        call := Function.update s.call s.count .running
        caller := Function.update s.caller s.count .waiting
        log := s.log ++ [.put ⟨s.count, q⟩, .start ⟨s.count, q⟩, .ask ⟨s.count, q⟩] } := by
      have hput : s.put q = { s with
          count := s.count + 1
          queue := ⟨[], some ⟨s.count, q⟩⟩
          call := Function.update s.call s.count .created
          caller := Function.update s.caller s.count .waiting
          ready := [.run ⟨s.count, q⟩]
          log := s.log ++ [.put ⟨s.count, q⟩, .start ⟨s.count, q⟩] } := by
        simp [put_eq, file, dispatch, Queue.dispatch, ha, hp, launch, h.rest]
      rw [hput, settle_cons rfl]
      simp only [perform, runCall, Function.update_self, Function.update_idem]
      rw [settle_of_ready_nil rfl]
      simp [h.rest]
    rw [hrun] at hreached ⊢
    refine ⟨⟨hreached, h.rest, hparsing⟩, rfl, [.ask q], by simp [List.filterMap_cons], ?_⟩
    simp [QueueState.step, Act.input, state, Queue.submit_idle ha hp, waiters_arrive,
      QueueState.started]

/-- A caller is cancelled. -/
theorem act_leave (h : Steady maxLength s) (k : Nat) :
    Mirrored maxLength parseType s (.leave k) (s.act maxLength parseType (.leave k)) := by
  have hreached := h.reached_settle (.cancel k)
  simp only [Desk.step] at hreached
  simp only [act]
  by_cases hk : s.caller k = .waiting
  · have hleft : (s.cancel k).settle maxLength = { s with
        caller := Function.update s.caller k .gone
        log := s.log ++ [.left k, .gone k] } := by
      have hcancel : s.cancel k = { s with
          caller := Function.update s.caller k .leaving
          ready := [.wake k]
          log := s.log ++ [.left k] } := by
        simp [cancel, hk, h.rest]
      rw [hcancel, settle_cons rfl]
      simp only [perform, wake, Function.update_self, Function.update_idem]
      rw [settle_of_ready_nil rfl]
      simp [h.rest]
    have hcount : k < s.count := by
      have := (h.scheduled.absent k).not.1 (by simp [hk])
      omega
    rw [hleft] at hreached ⊢
    refine ⟨⟨hreached, h.rest, fun j => ?_⟩, rfl, [.done k .cancelled],
      by simp [List.filterMap_cons], ?_⟩
    · rcases eq_or_ne j k with rfl | hne
      · simp
      · simpa [hne] using h.parsing j
    · have hmem : k ∈ waiters s.count s.caller := mem_waiters.2 ⟨hcount, hk⟩
      simp only [QueueState.step, Act.input, state, hmem, reduceIte]
      rw [waiters_leave (c := .gone) (by simp)]
  · have hstay : s.cancel k = s := by
      rcases cancel_cases s k with ⟨hw | hp, -⟩ | ⟨e, he, -⟩ | hs
      · exact absurd hw hk
      · exact absurd hp (h.parsing k)
      · rcases h.caller_cases k with hc | hc | hc <;> simp [hc] at he
      · exact hs
    rw [hstay, settle_of_ready_nil h.rest]
    exact ⟨h, rfl, [], by simp, by simp [QueueState.step, Act.input, state, mem_waiters, hk]⟩

/-- The desk when a call has ended and the next one has taken its first step. -/
def advanced (s : Desk ε) (k : Nat) (e : Ending ε) (call : Nat → CallStage ε) : Desk ε :=
  { s with
    queue := s.queue.finish.1
    call
    log := s.log ++ .ended k e :: s.queue.finish.2.toList.flatMap fun x => [.start x, .ask x] }

/-- The next call takes its first step before the caller of the one that ended
takes its own. -/
theorem settle_callEnds (maxLength : Int) (hk : s.call k = .running) (hr : s.ready = [])
    (e : Ending ε) :
    ∃ call, (s.callEnds k e).settle maxLength =
      ((s.advanced k e call).tell k e).settle maxLength := by
  have hend : s.callEnds k e = { s with
      call := Function.update s.call k (.ended e), ready := [.finish k]
      log := s.log ++ [.ended k e] } := by
    simp [callEnds, hk, hr]
  rw [hend, settle_cons rfl]
  simp only [perform]
  rw [finish_eq (e := e) (by simp)]
  rcases dispatch_cases (close { s with
      call := Function.update s.call k (.ended e), ready := [], log := s.log ++ [.ended k e] } k e)
    with ⟨he, hb⟩ | ⟨x, rest, -, hp, he⟩ <;> rw [he]
  · have hfinish : s.queue.finish = (⟨[], none⟩, none) := Queue.finish_last (hb rfl)
    have hp : s.queue.pending = [] := hb rfl
    refine ⟨Function.update s.call k (.closed e), ?_⟩
    simp [advanced, close, hfinish, hp, hr]
  · have hfinish : s.queue.finish = (⟨rest, some x⟩, some x) := Queue.finish_next hp
    refine ⟨Function.update (Function.update s.call k (.closed e)) x.caller .running, ?_⟩
    by_cases hw : s.caller k = .waiting
    · simp only [tell, advanced, close, hw]
      rw [settle_cons rfl]
      simp [perform, runCall, hfinish, hr]
    · rw [tell_of_ne_waiting (by exact hw), tell_of_ne_waiting (by exact hw), settle_cons rfl]
      simp [perform, runCall, advanced, close, hfinish, hr]

theorem advanced_shown (s : Desk ε) (k : Nat) (e : Ending ε) (call : Nat → CallStage ε) :
    (s.advanced k e call).log.filterMap Event.shown? =
      s.log.filterMap Event.shown? ++ QueueState.started s.queue.finish.2 := by
  cases hx : s.queue.finish.2 <;>
    simp [advanced, hx, QueueState.started, List.filterMap_cons]

/-- What is done with an answer whose parse returns at once. -/
def served (maxLength : Int) (parseType : String → Option Json) (k : Nat) (e : Ending ε) :
    List (Event ε) :=
  match textToParse maxLength e.callEnd with
  | some text =>
    let p : ParseEnd ε := .of (parseType text)
    [.heard k (.parse text), .parsed k p, .heard k (.done p.reply)]
  | none => [.heard k (.done e.reply)]

theorem served_shown (k : Nat) (e : Ending ε) :
    (served maxLength parseType k e).filterMap Event.shown? =
      QueueState.delivery maxLength parseType k e.callEnd := by
  unfold served QueueState.delivery
  cases htext : textToParse maxLength e.callEnd with
  | some text => simp [List.filterMap_cons, outcomeOf_text htext]
  | none => simp [outcomeOf_no_text htext]

/-- A caller that waits is served; the parse of its answer returns at once. -/
theorem serve (hw : s.caller k = .waiting) (hr : s.ready = []) (e : Ending ε) :
    ((s.tell k e).settle maxLength).parseAtOnce maxLength parseType k e = { s with
      caller := Function.update s.caller k .gone
      log := s.log ++ served maxLength parseType k e } := by
  have htold : s.tell k e = { s with
      caller := Function.update s.caller k (.told e), ready := [.wake k] } := by
    simp [tell, hw, hr]
  rw [htold, settle_cons rfl]
  simp only [perform, wake, Function.update_self, Function.update_idem, served, parseAtOnce]
  cases htext : textToParse maxLength e.callEnd with
  | some text =>
    rw [settle_of_ready_nil rfl]
    simp [parseEnds, hr]
  | none =>
    rw [settle_of_ready_nil rfl]
    simp [hr]

/-- A caller that was cancelled is told nothing. -/
theorem serve_nobody (hw : s.caller k = .gone) (hr : s.ready = []) (e : Ending ε) :
    ((s.tell k e).settle maxLength).parseAtOnce maxLength parseType k e = s := by
  rw [tell_of_ne_waiting (by simp [hw]), settle_of_ready_nil hr]
  unfold parseAtOnce
  split <;> simp [parseEnds, hw]

/-- The call in flight ends. -/
theorem act_ends (h : Steady maxLength s) (e : Ending ε) :
    Mirrored maxLength parseType s (.ends e) (s.act maxLength parseType (.ends e)) := by
  simp only [act]
  cases ha : s.queue.active with
  | none => exact ⟨h, rfl, [], by simp, by simp [QueueState.step, Act.input, state, ha]⟩
  | some a =>
    have hin := (h.lined.inHand a.caller).2 ⟨a, ha, rfl⟩
    have hk : s.call a.caller = .running := by
      rcases h.scheduled.call_at_rest h.lined h.rest a.caller with hc | hc | ⟨f, hc⟩
      · simp [hc, CallStage.inHand] at hin
      · exact hc
      · simp [hc, CallStage.inHand] at hin
    have hcount : a.caller < s.count := by
      have := h.lined.active_number ha
      have := h.lined.length_add
      omega
    have hreached : ∃ xs, ((s.callEnds a.caller e).settle maxLength).parseAtOnce maxLength
        parseType a.caller e = run maxLength xs := by
      obtain ⟨xs, hxs⟩ := h.reached_settle (.callEnds a.caller e)
      simp only [Desk.step] at hxs
      rw [hxs]
      unfold parseAtOnce
      split
      · rename_i text _
        exact ⟨xs ++ [.parseEnds a.caller (.of (parseType text))], by simp [run, step]⟩
      · exact ⟨xs, rfl⟩
    obtain ⟨call, hset⟩ := settle_callEnds maxLength hk h.rest e
    simp only [hset] at hreached ⊢
    have hshown := s.advanced_shown a.caller e call
    rcases h.caller_cases a.caller with hc | hc | hc
    · have := (h.scheduled.absent a.caller).1 hc
      omega
    · rw [serve (s := s.advanced a.caller e call) hc h.rest] at hreached ⊢
      refine ⟨⟨hreached, h.rest, fun j => ?_⟩, rfl,
        QueueState.started s.queue.finish.2 ++
          QueueState.delivery maxLength parseType a.caller e.callEnd, ?_, ?_⟩
      · rcases eq_or_ne j a.caller with rfl | hne
        · simp
        · simpa [hne, advanced] using h.parsing j
      · rw [List.filterMap_append, hshown, served_shown, List.append_assoc]
      · have hmem : a.caller ∈ waiters s.count s.caller := mem_waiters.2 ⟨hcount, hc⟩
        simp only [QueueState.step, Act.input, state, ha, hmem, reduceIte, advanced]
        rw [waiters_leave (c := .gone) (by simp)]
    · rw [serve_nobody (s := s.advanced a.caller e call) hc h.rest] at hreached ⊢
      refine ⟨⟨hreached, h.rest, h.parsing⟩, rfl, QueueState.started s.queue.finish.2, hshown, ?_⟩
      have hmem : a.caller ∉ waiters s.count s.caller := by simp [mem_waiters, hc]
      simp only [QueueState.step, Act.input, state, ha, hmem, reduceIte, advanced]

/-- The queue as it runs does what the desk does when it is left alone. -/
theorem act_mirrored (parseType : String → Option Json) (h : Steady maxLength s) (x : Act ε) :
    Mirrored maxLength parseType s x (s.act maxLength parseType x) := by
  cases x with
  | put q => exact act_put h q
  | ends e => exact act_ends h e
  | leave k => exact act_leave h k

theorem steady_empty : Steady maxLength (empty : Desk ε) := ⟨⟨[], rfl⟩, rfl, nofun⟩

/-- **The queue as it runs is the desk left alone**, through everything that is
done to it: there is a run of the desk that leaves the same queue and the same
callers, and of which the same was shown. -/
theorem queue_runs_as_desk (maxLength : Int) (parseType : String → Option Json)
    (acts : List (Act ε)) : ∃ xs : List (Happening ε),
      (Act.inputs 0 acts).foldl (QueueState.advance maxLength parseType) (.empty, []) =
        ((run maxLength xs).state, (run maxLength xs).log.filterMap Event.shown?) ∧
      (run maxLength xs).ready = [] := by
  -- Along the acts, from any desk between two of them.
  have go (acts : List (Act ε)) : ∀ s : Desk ε, Steady maxLength s →
      ∃ t : Desk ε, Steady maxLength t ∧
      (Act.inputs s.count acts).foldl (QueueState.advance maxLength parseType)
        (s.state, s.log.filterMap Event.shown?) = (t.state, t.log.filterMap Event.shown?) := by
    induction acts with
    | nil => exact fun s h => ⟨s, h, rfl⟩
    | cons x rest ih =>
      intro s h
      obtain ⟨hsteady, hcount, shown, hlog, hstep⟩ := act_mirrored parseType h x
      obtain ⟨t, ht, he⟩ := ih _ hsteady
      refine ⟨t, ht, ?_⟩
      rw [← he, hcount, hlog]
      simp [Act.inputs, QueueState.advance, hstep]
  obtain ⟨t, ht, he⟩ := go acts empty steady_empty
  obtain ⟨xs, rfl⟩ := ht.reached
  exact ⟨xs, he, ht.rest⟩

end Desk

end Retype.Inference
