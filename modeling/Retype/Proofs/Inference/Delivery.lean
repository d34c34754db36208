import Retype.Proofs.Inference.Order
import Retype.Proofs.Inference.Rest
/-!
# Answers reach their own callers

At rest every caller that was not cancelled has heard what its own call came to,
and nothing else: neither the other calls nor the other callers have a part in
it. A caller that is cancelled is no loss to the calls either.
-/

namespace Retype.Inference

variable {ε : Type} {maxLength : Int}

/-- What a caller hears of a call that ended so, where its parse has returned
`ps`: the usable text of an answer is parsed, and what the parse gives is the
reply; an unusable answer and a checker that could not answer give nothing; any
other error and a cancellation are passed on. -/
def course (maxLength : Int) : Ending ε → List (ParseEnd ε) → List (Notice ε)
  | .answered output, ps =>
    match sanitize maxLength output with
    | some text => .parse text :: ps.map fun p => .done p.reply
    | none => [.done (.type none)]
  | .unavailable, _ => [.done (.type none)]
  | .broke error, _ => [.done (.raised error)]
  | .cancelled, _ => [.done .cancelled]

theorem course_of_text {e : Ending ε} {text : String}
    (h : textToParse maxLength e.callEnd = some text) (ps : List (ParseEnd ε)) :
    course maxLength e ps = .parse text :: ps.map fun p => .done p.reply := by
  cases e <;> simp_all [course, textToParse, Ending.callEnd]

theorem course_of_no_text {e : Ending ε} (h : textToParse maxLength e.callEnd = none)
    (ps : List (ParseEnd ε)) : course maxLength e ps = [.done e.reply] := by
  cases e <;> simp_all [course, textToParse, Ending.callEnd, Ending.reply]

/-- The callers of a desk at rest. -/
structure Answered (maxLength : Int) (s : Desk ε) : Prop where
  rest : s.ready = []
  /-- A call ends once, -/
  ends : ∀ k, (s.log.filterMap (Event.ending? k)).length ≤ 1
  /-- and a parse returns once. -/
  parses : ∀ k, k ∉ s.log.filterMap Event.left? →
    (s.log.filterMap (Event.parsed? k)).length ≤ 1
  /-- A caller that was not cancelled has been served once its call has ended, by
  the end of that call and what its parse has returned alone. -/
  served : ∀ k e, k ∉ s.log.filterMap Event.left? → .ended k e ∈ s.log →
    s.log.filterMap (Event.heard? k) =
      course maxLength e (s.log.filterMap (Event.parsed? k))
  /-- Before that it has heard nothing. -/
  waiting : ∀ k, k ∉ s.log.filterMap Event.left? → (∀ e, .ended k e ∉ s.log) →
    s.log.filterMap (Event.heard? k) = []
  /-- As many calls have started as can, however many callers were cancelled. -/
  started : (s.log.filterMap Event.start?).length =
    min (s.log.filterMap Event.put?).length ((s.log.filterMap Event.ended?).length + 1)

theorem mem_endings {log : List (Event ε)} {k : Nat} {e : Ending ε} :
    e ∈ log.filterMap (Event.ending? k) ↔ .ended k e ∈ log := by
  rw [List.mem_filterMap]
  constructor
  · rintro ⟨x, hx, hxe⟩
    cases x <;> simp at hxe
    obtain ⟨rfl, rfl⟩ := hxe
    exact hx
  · exact fun hm => ⟨_, hm, by simp⟩

/-- What a caller has heard is a matter of how its call ended and of what its
parse returned. -/
theorem Answered.heard_eq {s : Desk ε} {k : Nat} (h : Answered maxLength s)
    (hk : k ∉ s.log.filterMap Event.left?) :
    s.log.filterMap (Event.heard? k) = (s.log.filterMap (Event.ending? k)).flatMap
      (course maxLength · (s.log.filterMap (Event.parsed? k))) := by
  have hone := h.ends k
  cases hends : s.log.filterMap (Event.ending? k) with
  | nil =>
    rw [h.waiting k hk fun e he => by simpa [hends] using mem_endings.2 he]
    rfl
  | cons e es =>
    obtain rfl : es = [] := by simpa [hends] using hone
    rw [h.served k e hk (mem_endings.1 (by simp [hends]))]
    simp

namespace Desk

variable {s : Desk ε} {k : Nat}

/-- At rest a call is neither about to run nor about to be completed. -/
theorem Scheduled.call_at_rest (hd : Scheduled s) (hl : Lined s) (hr : s.ready = []) (k : Nat) :
    s.call k = .queued ∨ s.call k = .running ∨ ∃ e, s.call k = .closed e := by
  have hfin := (hd.finishes k).not.1 (by simp [hr])
  have hrun : ¬(s.call k).unrun := fun hu => by
    have hin : (s.call k).inHand := by
      revert hu
      cases s.call k <;> simp [CallStage.unrun, CallStage.inHand]
    obtain ⟨a, ha, rfl⟩ := (hl.inHand k).1 hin
    have := (hd.runs a).2 ⟨ha, hu⟩
    simp [hr] at this
  cases hc : s.call k with
  | queued => exact .inl rfl
  | running => exact .inr (.inl rfl)
  | closed e => exact .inr (.inr ⟨e, rfl⟩)
  | ended e => exact absurd ⟨e, hc⟩ hfin
  | created | givenUp => exact absurd rfl (hc ▸ hrun)

/-- At rest the calls that started have ended, but for the active one. -/
theorem Lined.length_started (hl : Lined s) (hd : Scheduled s) (hr : s.ready = []) :
    (s.log.filterMap Event.start?).length =
      (s.log.filterMap Event.ended?).length + s.queue.active.toList.length := by
  cases ha : s.queue.active with
  | some a =>
    have hin := (hl.inHand a.caller).2 ⟨a, ha, rfl⟩
    have hflight : (s.call a.caller).inFlight := by
      rcases hd.call_at_rest hl hr a.caller with hc | hc | ⟨e, hc⟩ <;>
        simp [hc, CallStage.inHand, CallStage.inFlight] at hin ⊢
    have hlast := hl.active_number ha
    have hended := hl.length_ended hflight
    simp only [Option.toList_some, List.length_singleton]
    omega
  | none =>
    -- Without an active call, what has started has ended.
    have hover k : k < (s.log.filterMap Event.start?).length ↔
        k < (s.log.filterMap Event.ended?).length := by
      have hq := (hl.queued k).not
      have hin := (hl.inHand k).not.2 (by simp [ha])
      rw [Nat.not_le] at hq
      rw [← hq, ← hl.concluded]
      rcases hd.call_at_rest hl hr k with hc | hc | ⟨e, hc⟩ <;>
        simp [hc, CallStage.inHand, CallStage.ending] at hin ⊢
    have h₁ := (hover (s.log.filterMap Event.start?).length).not
    have h₂ := (hover (s.log.filterMap Event.ended?).length).not
    simp only [Option.toList_none, List.length_nil]
    omega

/-- At rest a caller that was not cancelled has gone as far as its call lets it. -/
theorem answered_of_rest (hl : Lined s) (hd : Scheduled s) (ht : Tended maxLength s)
    (hr : s.ready = []) : Answered maxLength s where
  rest := hr
  ends k := by
    rw [hl.ends]
    cases (s.call k).ending <;> simp
  parses k hk := by
    have hs := ht.served k hk
    generalize s.log.filterMap (Event.heard? k) = ns at hs
    generalize s.log.filterMap (Event.parsed? k) = ps at hs ⊢
    generalize s.caller k = c at hs
    cases hs <;> simp
  served k e hk he := by
    have hs := ht.served k hk
    have hc : s.call k = .closed e := by
      have hend : (s.call k).ending = some e := by simpa [hl.ends] using mem_endings.2 he
      rcases hd.call_at_rest hl hr k with hc | hc | ⟨f, hc⟩ <;> simp [hc, CallStage.ending] at hend
      rw [hc, hend]
    have hwoken : (s.caller k).woken = false := by
      simpa [hr] using (hd.wakes k).not
    -- Of all the ways in which a caller is served, only the last ones leave nothing due.
    rw [hc] at hs
    generalize s.log.filterMap (Event.heard? k) = ns at hs ⊢
    generalize s.log.filterMap (Event.parsed? k) = ps at hs ⊢
    generalize s.caller k = c at hs hwoken
    cases hs with
    | absent ho | waiting ho => cases ho
    | told f hf => cases hwoken
    | parsing f text hf htext =>
      cases hf
      exact (course_of_text htext []).symm
    | handed f hf htext =>
      cases hf
      exact (course_of_no_text htext []).symm
    | parsed f text p hf htext =>
      cases hf
      exact (course_of_text htext [p]).symm
  waiting k hk hno := by
    have hs := ht.served k hk
    have hopen f : s.call k ≠ .closed f := fun hc =>
      hno f (mem_endings.1 (by simp [hl.ends, hc, CallStage.ending]))
    generalize s.log.filterMap (Event.heard? k) = ns at hs ⊢
    generalize s.log.filterMap (Event.parsed? k) = ps at hs
    generalize s.caller k = c at hs
    cases hs with
    | absent | waiting => rfl
    | told f hf | parsing f _ hf _ | handed f hf _ | parsed f _ _ hf _ => exact absurd hf (hopen f)
  started := by
    have hlen := hl.length_started hd hr
    have hall := congrArg List.length hl.filed
    rw [List.length_append] at hall
    cases ha : s.queue.active with
    | none =>
      rw [hl.busy ha] at hall
      simp [ha] at hlen hall
      omega
    | some a =>
      simp [ha] at hlen
      omega

/-- **Answers reach their own callers.** Whatever was put, ended and cancelled
before, in whatever order, a desk that is left alone comes to rest with every
caller served as in `Answered`. In two runs in which a call ended alike and its
parse returned alike its caller has heard the same, whatever became of the
others. And a caller that is cancelled, whatever happens afterwards, changes
nothing about the calls: which have been put, started, reached the checker and
ended, and in which order. -/
theorem answers_reach_callers (maxLength : Int) (xs : List (Happening ε)) :
    let s := (run maxLength xs).settle maxLength
    Answered maxLength s ∧
      (∀ (ys : List (Happening ε)) k, let t := (run maxLength ys).settle maxLength
        k ∉ s.log.filterMap Event.left? → k ∉ t.log.filterMap Event.left? →
        s.log.filterMap (Event.ending? k) = t.log.filterMap (Event.ending? k) →
        s.log.filterMap (Event.parsed? k) = t.log.filterMap (Event.parsed? k) →
        s.log.filterMap (Event.heard? k) = t.log.filterMap (Event.heard? k)) ∧
      ∀ k ys, ((((run maxLength xs).cancel k).settle maxLength).attend maxLength ys).calls =
        (s.attend maxLength ys).calls := by
  have answered (ys : List (Happening ε)) :
      Answered maxLength ((run maxLength ys).settle maxLength) := by
    obtain ⟨n, hn⟩ := settle_run maxLength ys
    have hr := ready_settle maxLength (run maxLength ys)
    rw [hn] at hr ⊢
    exact answered_of_rest (lined_run _ _) (scheduled_run _ _) (tended_run _ _) hr
  refine ⟨answered xs, fun ys k hs ht hends hparses => ?_,
    fun k ys => attend_calls ys ?_ (ready_settle _ _) (ready_settle _ _)⟩
  · rw [(answered xs).heard_eq hs, (answered ys).heard_eq ht, hends, hparses]
  · rw [settle_calls, cancel_calls, settle_calls]

/-- Two queries about one file, of which the first has no answer. -/
def sampleServed : List (Happening String) :=
  [.put ⟨"a.js", ⟨"a.js", ⟨1, 0⟩, ⟨1, 1⟩⟩⟩, .put ⟨"a.js", ⟨"a.js", ⟨2, 0⟩, ⟨2, 1⟩⟩⟩, .turn,
    .callEnds 0 .unavailable, .turn, .turn, .turn,
    .callEnds 1 (.answered "number (implicit)\n"), .turn, .turn, .parseEnds 1 .refused]

/-- The same queries, the first caller cancelled while its call is in flight. -/
def sampleLeft : List (Happening String) :=
  [.put ⟨"a.js", ⟨"a.js", ⟨1, 0⟩, ⟨1, 1⟩⟩⟩, .put ⟨"a.js", ⟨"a.js", ⟨2, 0⟩, ⟨2, 1⟩⟩⟩, .turn,
    .cancel 0, .turn, .callEnds 0 (.broke "lost"), .turn, .turn,
    .callEnds 1 (.answered "number (implicit)\n"), .turn, .turn, .parseEnds 1 .refused]

/-- The second caller hears the same in both. -/
theorem answers_reach_callers_sample :
    0 ∈ ((run 100 sampleLeft).settle 100).log.filterMap Event.left? ∧
      ((run 100 sampleServed).settle 100).log.filterMap (Event.heard? 1) =
        [.parse "number", .done (.type none)] ∧
      ((run 100 sampleServed).settle 100).log.filterMap (Event.heard? 1) =
        ((run 100 sampleLeft).settle 100).log.filterMap (Event.heard? 1) := by
  have hserved : ((run 100 sampleServed).settle 100).log.filterMap (Event.parsed? 1) =
      [.refused] := by rfl
  have hleft : ((run 100 sampleLeft).settle 100).log.filterMap (Event.parsed? 1) =
      [.refused] := by rfl
  refine ⟨by decide +kernel, by rfl, ?_⟩
  exact (answers_reach_callers 100 sampleServed).2.1 sampleLeft 1 (by decide +kernel)
    (by decide +kernel) (by decide +kernel) (hserved.trans hleft.symm)

end Desk

end Retype.Inference
