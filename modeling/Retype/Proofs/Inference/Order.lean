import Retype.Proofs.Inference.Callers
/-!
# The order of calls and answers

When a call ends, the query that has waited longest is started before the
answer is parsed or handed over: its task is created before the caller is told,
and takes its first step before the caller takes its own.
-/

namespace Retype.Inference

variable {ε : Type} {maxLength : Int}

/-- When call `k` ended, `x` was the query that had waited longest, and `since`
has happened from then on. -/
def NextWhenEnded (log : List (Event ε)) (k : Nat) (x : Entry Nat) (since : List (Event ε)) :
    Prop :=
  ∃ before e rest, log = before ++ .ended k e :: since ∧
    before.filterMap Event.put? = before.filterMap Event.start? ++ x :: rest

/-- The call for `x` has started and taken its first step, which asks the
checker unless the call was given up by then. -/
def Underway (x : Entry Nat) (log : List (Event ε)) : Prop :=
  .start x ∈ log ∧ (.ask x ∈ log ∨ .ended x.caller .cancelled ∈ log)

theorem Underway.append {x : Entry Nat} {log : List (Event ε)} (h : Underway x log)
    (xs : List (Event ε)) : Underway x (log ++ xs) :=
  ⟨List.mem_append_left _ h.1, h.2.imp (List.mem_append_left _) (List.mem_append_left _)⟩

/-- The end of a call is in what has just happened or came before it. -/
theorem NextWhenEnded.of_append {log xs since : List (Event ε)} {k : Nat} {x : Entry Nat}
    (h : NextWhenEnded (log ++ xs) k x since) :
    (∃ since₀, since = since₀ ++ xs ∧ NextWhenEnded log k x since₀) ∨
      ∃ e, .ended k e ∈ xs := by
  obtain ⟨before, e, rest, hlog, hnext⟩ := h
  rcases List.append_eq_append_iff.1 hlog with ⟨mid, hb, hx⟩ | ⟨mid, hl, hx⟩
  · exact .inr ⟨e, by simp [hx]⟩
  · cases mid with
    | nil => exact .inr ⟨e, (hx ▸ List.mem_cons_self : Event.ended k e ∈ [] ++ xs)⟩
    | cons y mid =>
      obtain ⟨rfl, rfl⟩ := List.cons.inj hx
      exact .inl ⟨mid, rfl, before, e, rest, hl, hnext⟩

namespace Desk

variable {s t : Desk ε} {k : Nat} {x : Entry Nat} {since xs : List (Event ε)}

/-- What is done by now for the query `x` that was next when call `k` ended. -/
structure PromptAt (s : Desk ε) (k : Nat) (x : Entry Nat) (since : List (Event ε)) : Prop where
  next : ∀ e, s.call k = .ended e → s.queue.pending.head? = some x
  ahead : ∀ e, s.call k = .closed e → k ∈ s.log.filterMap Event.left? ∨ Underway x since ∨
    .start x ∈ since ∧ (∃ e, s.caller k = .told e) ∧ [.run x, .wake k].Sublist s.ready

/-- Whenever a call ended, the next one is on its way. -/
def Prompt (s : Desk ε) : Prop :=
  ∀ k x since, NextWhenEnded s.log k x since → s.PromptAt k x since

/-- What happens to a query that is next, where its own call and the one before
it are not completed or run. -/
theorem PromptAt.mono (h : s.PromptAt k x since) (hcall : t.call k = s.call k)
    (hnext : ∀ e, s.call k = .ended e → s.queue.pending.head? = some x →
      t.queue.pending.head? = some x)
    (hleft : k ∈ s.log.filterMap Event.left? → k ∈ t.log.filterMap Event.left?)
    (hsoon : (∃ e, s.caller k = .told e) → [.run x, .wake k].Sublist s.ready →
      k ∈ t.log.filterMap Event.left? ∨ (.ask x ∈ xs ∨ .ended x.caller .cancelled ∈ xs) ∨
        (∃ e, t.caller k = .told e) ∧ [.run x, .wake k].Sublist t.ready) :
    t.PromptAt k x (since ++ xs) where
  next e he := by
    rw [hcall] at he
    exact hnext e he (h.next e he)
  ahead e he := by
    rw [hcall] at he
    rcases h.ahead e he with hgone | hunder | ⟨hstart, htold, hsub⟩
    · exact .inl (hleft hgone)
    · exact .inr (.inl (hunder.append xs))
    · have hstart' : .start x ∈ since ++ xs := List.mem_append_left _ hstart
      rcases hsoon htold hsub with hgone | hrun | hstill
      · exact .inl hgone
      · exact .inr (.inl ⟨hstart', hrun.imp (List.mem_append_right _) (List.mem_append_right _)⟩)
      · exact .inr (.inr ⟨hstart', hstill⟩)

/-- What happens where more is logged: calls that had ended before, and at most
one that ends now. -/
theorem Prompt.extend (xs : List (Event ε)) (h : Prompt s) (hl : Ordered s)
    (hlog : t.log = s.log ++ xs)
    (old : ∀ k x since, s.PromptAt k x since → (∀ e, .ended k e ∉ xs) →
      t.PromptAt k x (since ++ xs))
    (new : ∀ k e, .ended k e ∈ xs → xs = [.ended k e] ∧ (s.call k).inFlight ∧
      (∃ e, t.call k = .ended e) ∧ t.queue.pending = s.queue.pending) : Prompt t := by
  intro k x since hn
  rw [hlog] at hn
  by_cases hk : ∃ e, .ended k e ∈ xs
  · -- A call that ends now: nothing has happened since, and the query that is next is
    -- the first of those that wait.
    obtain ⟨e, he⟩ := hk
    obtain ⟨rfl, hflight, ⟨e', hend⟩, hpend⟩ := new k e he
    obtain ⟨before, e₁, rest, hsplit, hnext⟩ := hn
    have hfirst (f : Ending ε) : .ended k f ∉ s.log := fun hf => by
      have := hl.ends k
      rw [CallStage.ending_of_inFlight hflight] at this
      have := List.filterMap_eq_nil_iff.1 this _ hf
      simp at this
    obtain rfl : before = s.log := by
      rcases List.append_eq_append_iff.1 hsplit with ⟨mid, hb, hx⟩ | ⟨mid, hb, hx⟩
      · cases mid with
        | nil => simpa using hb
        | cons y mid => simp at hx
      · cases mid with
        | nil => simpa using hb.symm
        | cons y mid =>
          obtain ⟨rfl, -⟩ := List.cons.inj hx
          exact absurd (by rw [hb]; simp) (hfirst e₁)
    refine ⟨fun _ _ => ?_, fun _ hc => by simp [hend] at hc⟩
    rw [hpend, show s.queue.pending = x :: rest from
      List.append_cancel_left (hl.filed.trans hnext)]
    rfl
  · obtain ⟨since₀, rfl, hn₀⟩ := hn.of_append.resolve_right hk
    exact old k x since₀ (h k x since₀ hn₀) fun e he => hk ⟨e, he⟩

theorem prompt_empty : Prompt (empty : Desk ε) := by
  rintro k x since ⟨before, e, rest, hlog, -⟩
  simp [empty] at hlog

/-! ## One step -/

/-- A caller is cancelled. -/
theorem Prompt.cancel (h : Prompt s) (hl : Ordered s) (j : Nat) : Prompt (s.cancel j) := by
  have leave (ready : List Job) (hr : s.ready.Sublist ready) : Prompt { s with
      caller := Function.update s.caller j .leaving, ready, log := s.log ++ [.left j] } := by
    refine h.extend _ hl rfl (fun k x since hp _ => hp.mono rfl (fun _ _ hx => hx) (fun hk => ?_)
      fun htold hsub => ?_) (by simp)
    · simp only [List.filterMap_append, List.mem_append]
      exact .inl hk
    · rcases eq_or_ne k j with rfl | hne
      · exact .inl (by simp)
      · exact .inr (.inr ⟨by simpa [hne] using htold, hsub.trans hr⟩)
  rcases cancel_cases s j with ⟨-, hs⟩ | ⟨e, -, hs⟩ | hs <;> rw [hs]
  · exact leave _ (List.sublist_append_left _ _)
  · exact leave _ (List.Sublist.refl _)
  · exact h

/-- A parse returns. -/
theorem Prompt.parseEnds (h : Prompt s) (hl : Ordered s) (j : Nat) (p : ParseEnd ε) :
    Prompt (s.parseEnds j p) := by
  rcases parseEnds_cases s j p with ⟨hj, hs⟩ | ⟨-, hs⟩ <;> rw [hs]
  · refine h.extend _ hl rfl (fun k x since hp _ => hp.mono rfl (fun _ _ hx => hx) (fun hk => ?_)
      fun htold hsub => ?_) (by simp)
    · simp only [List.filterMap_append, List.mem_append]
      exact .inl hk
    · rcases eq_or_ne k j with rfl | hne
      · simp [hj] at htold
      · exact .inr (.inr ⟨by simpa [hne] using htold, hsub⟩)
  · exact h

theorem Prompt.file (h : Prompt s) (hl : Ordered s) (ha : ∀ k, s.caller k = .absent ↔ s.count ≤ k)
    (q : Query) : Prompt (s.file q) := by
  refine h.extend [.put ⟨s.count, q⟩] hl rfl (fun k x since hp _ => hp.mono rfl
    (fun e _ hx => ?_) (fun hk => ?_) fun ⟨e, he⟩ hsub => ?_) (by simp)
  · simp [Desk.file, hx]
  · simpa [Desk.file, List.filterMap_cons] using hk
  · have hne : k ≠ s.count := by
      rintro rfl
      simp [(ha s.count).2 (Nat.le_refl _)] at he
    exact .inr (.inr ⟨⟨e, by simpa [Desk.file, hne] using he⟩, hsub⟩)

/-- The next call starts where none was in hand. -/
theorem Prompt.dispatch (h : Prompt s) (hl : Ordered s) : Prompt s.dispatch := by
  rcases dispatch_cases s with ⟨he, -⟩ | ⟨y, rest, ha, hp, he⟩ <;> rw [he]
  · exact h
  · refine h.extend [.start y] hl rfl (fun k x since hk _ => ?_) (by simp)
    rcases eq_or_ne k y.caller with rfl | hne
    · exact ⟨by simp, by simp⟩
    · refine hk.mono (by simp [hne]) (fun e hended => ?_) (fun hleft => ?_) fun htold hsub => ?_
      · have := (hl.inHand k).1 (by simp [hended, CallStage.inHand])
        simp [ha] at this
      · simpa [List.filterMap_cons] using hleft
      · exact .inr (.inr ⟨htold, hsub.trans (List.sublist_append_left _ _)⟩)

/-- A query is put. -/
theorem Prompt.put (h : Prompt s) (hl : Lined s) (hd : Scheduled s) (q : Query) :
    Prompt (s.put q) :=
  (h.file hl.toOrdered hd.absent q).dispatch (hl.file q)

/-- A call in flight moves on, or ends. -/
theorem Prompt.move {j : Nat} {c : CallStage ε} (ready : List Job) (xs : List (Event ε))
    (h : Prompt s) (hl : Ordered s)
    (hj : (s.call j).inFlight)
    (hc : c.inFlight ∧ (∀ k e, .ended k e ∉ xs) ∨ ∃ e, c = .ended e ∧ xs = [.ended j e])
    (hready : ∀ x k, [.run x, .wake k].Sublist s.ready →
      (.ask x ∈ xs ∨ .ended x.caller .cancelled ∈ xs) ∨ [.run x, .wake k].Sublist ready) :
    Prompt { s with call := Function.update s.call j c, ready, log := s.log ++ xs } := by
  refine h.extend _ hl rfl (fun k x since hk hno => ?_) fun k e he => ?_
  · rcases eq_or_ne k j with rfl | hne
    · rcases hc with ⟨hc, -⟩ | ⟨e, -, rfl⟩
      · constructor <;> rintro e he <;> simp at he <;> simp [he, CallStage.inFlight] at hc
      · exact absurd (List.mem_singleton_self _) (hno e)
    · refine hk.mono (by simp [hne]) (fun _ _ hx => hx) (fun hleft => ?_) fun htold hsub => ?_
      · simp only [List.filterMap_append, List.mem_append]
        exact .inl hleft
      · exact .inr ((hready x k hsub).imp id fun hs => ⟨htold, hs⟩)
  · rcases hc with ⟨-, hno⟩ | ⟨f, rfl, rfl⟩
    · exact absurd he (hno k e)
    · obtain ⟨rfl, rfl⟩ := Event.ended.inj (List.mem_singleton.1 he)
      exact ⟨rfl, hj, ⟨_, Function.update_self ..⟩, rfl⟩

/-- A call ends. -/
theorem Prompt.callEnds (h : Prompt s) (hl : Ordered s) (j : Nat) (e : Ending ε) :
    Prompt (s.callEnds j e) := by
  rcases callEnds_cases s j e with ⟨hj, hs⟩ | ⟨hj, hs⟩ | hs <;> rw [hs]
  · exact h.move _ _ hl (by simp [hj, CallStage.inFlight]) (.inr ⟨_, rfl, rfl⟩)
      fun x k hs => .inr (hs.trans (List.sublist_append_left _ _))
  · simpa using h.move (c := .givenUp) s.ready [] hl
      (by simp [hj, CallStage.inFlight]) (.inl ⟨rfl, by simp⟩) fun x k hs => .inr hs
  · exact h

/-! ## The oldest job -/

section Turn

variable {job : Job} {rest : List Job}

/-- What is behind the oldest job stays as it is. -/
theorem sublist_rest {i j : Job} (hs : [i, j].Sublist (job :: rest)) (hi : i ≠ job) :
    [i, j].Sublist rest := by
  cases hs with
  | cons _ h => exact h
  | cons_cons _ h => exact absurd rfl hi

/-- A call takes its first step. -/
theorem Prompt.runCall {y : Entry Nat} (h : Prompt s) (hl : Ordered s) (hd : Scheduled s)
    (hr : s.ready = .run y :: rest) : Prompt ({ s with ready := rest }.runCall y) := by
  have hu := ((hd.runs y).1 (by simp [hr])).2
  -- A first step that is due before the caller's step either is this one or stays so.
  have behind {x : Entry Nat} {k : Nat} (hs : [.run x, .wake k].Sublist s.ready) (hne : x ≠ y) :
      [.run x, .wake k].Sublist rest :=
    sublist_rest (hr ▸ hs) (by simpa using hne)
  rcases runCall_cases { s with ready := rest } y with ⟨hy, hs⟩ | ⟨hy, hs⟩ | ⟨hn, -⟩
  · rw [hs]
    replace hy : s.call y.caller = .created := hy
    refine h.move _ _ hl (by simp [hy, CallStage.inFlight]) (.inl ⟨rfl, by simp⟩) fun x k hs => ?_
    by_cases hx : x = y
    · exact .inl (.inl (by simp [hx]))
    · exact .inr (behind hs hx)
  · rw [hs]
    replace hy : s.call y.caller = .givenUp := hy
    refine h.move _ _ hl (by simp [hy, CallStage.inFlight]) (.inr ⟨_, rfl, rfl⟩) fun x k hs => ?_
    by_cases hx : x = y
    · exact .inl (.inr (by simp [hx]))
    · exact .inr ((behind hs hx).trans (List.sublist_append_left _ _))
  · exact absurd hu (by simpa using hn)

/-- A caller takes its next step. -/
theorem Prompt.wake {j : Nat} (h : Prompt s) (hl : Ordered s) (hd : Scheduled s)
    (hr : s.ready = .wake j :: rest) : Prompt ({ s with ready := rest }.wake maxLength j) := by
  have hrest {x : Entry Nat} {k : Nat} (hs : [.run x, .wake k].Sublist s.ready) :
      k ≠ j ∧ [.run x, .wake k].Sublist rest := by
    rw [hr] at hs
    have hs' := sublist_rest hs (by simp)
    refine ⟨?_, hs'⟩
    rintro rfl
    exact (hd.pop hr).2.1 (hs'.subset (by simp))
  have on (c : CallerStage ε) (xs : List (Event ε)) (hxs : ∀ k e, .ended k e ∉ xs) :
      Prompt { s with
        caller := Function.update s.caller j c, ready := rest, log := s.log ++ xs } := by
    refine h.extend _ hl rfl (fun k x since hp _ => hp.mono rfl (fun _ _ hx => hx) (fun hk => ?_)
      fun htold hsub => ?_) (fun k e he => absurd he (hxs k e))
    · simp only [List.filterMap_append, List.mem_append]
      exact .inl hk
    · exact .inr (.inr ⟨by simpa [(hrest hsub).1] using htold, (hrest hsub).2⟩)
  have hw := (hd.wakes j).1 (by simp [hr])
  rcases wake_cases { s with ready := rest } j maxLength with
    ⟨e, text, -, -, hs⟩ | ⟨e, -, -, hs⟩ | ⟨-, hs⟩ | ⟨hn, -⟩
  · exact hs ▸ on _ _ (by simp)
  · exact hs ▸ on _ _ (by simp)
  · exact hs ▸ on _ _ (by simp)
  · exact absurd hw (by simpa using hn)

theorem tell_caller_of_ne {j : Nat} (hk : k ≠ j) (s : Desk ε) (e : Ending ε) :
    (s.tell j e).caller k = s.caller k := by
  rcases tell_cases s j e with ⟨-, hs⟩ | ⟨-, hs⟩ <;> rw [hs]
  simp [hk]

theorem ready_sublist_tell (s : Desk ε) (j : Nat) (e : Ending ε) :
    s.ready.Sublist (s.tell j e).ready := by
  rcases tell_cases s j e with ⟨-, hs⟩ | ⟨-, hs⟩ <;> rw [hs]
  exact List.sublist_append_left _ _

/-- A caller that waits is told, and its step is due after what was ready. -/
theorem told_after {j : Nat} {x : Entry Nat} (hj : s.caller j = .waiting) (hx : .run x ∈ s.ready)
    (e : Ending ε) :
    (∃ f, (s.tell j e).caller j = .told f) ∧ [.run x, .wake j].Sublist (s.tell j e).ready := by
  simp only [tell, hj, Function.update_self]
  exact ⟨⟨e, rfl⟩, (List.singleton_sublist.2 hx).append (List.Sublist.refl _)⟩

/-- A call is completed: its own caller is told after the next call has been
made ready. -/
theorem Prompt.finish {j : Nat} (h : Prompt s) (hl : Lined s) (hd : Scheduled s)
    (ht : Tended maxLength s) (hr : s.ready = .finish j :: rest) :
    Prompt ({ s with ready := rest }.finish j) := by
  obtain ⟨e, hj⟩ := (hd.finishes j).1 (by simp [hr])
  obtain ⟨a, ha, haj⟩ := (hl.inHand j).1 (by simp [hj, CallStage.inHand])
  have hclose := (hl.with_ready rest).close (k := j) (e := e) hj
  have hpresent : s.caller j ≠ .absent := hl.present ha haj hd.absent
  -- What the completion of `j` is to a call before it.
  have other {d : Desk ε} {ys : List (Event ε)} {k : Nat} {x : Entry Nat} {since : List (Event ε)}
      (hk : s.PromptAt k x since) (hne : k ≠ j) (hcall : d.call k = s.call k)
      (hcaller : d.caller = s.caller) (hready : rest.Sublist d.ready)
      (hlog : d.log = s.log ++ ys) : (d.tell j e).PromptAt k x (since ++ ys) := by
    refine hk.mono (by rw [tell_call, hcall]) (fun f hf => ?_) (fun hleft => ?_) fun htold hs => ?_
    · obtain ⟨b, hb, hbk⟩ := (hl.inHand k).1 (by simp [hf, CallStage.inHand])
      obtain rfl := Option.some.inj (ha.symm.trans hb)
      exact absurd (hbk.symm.trans haj) hne
    · rw [tell_log, hlog, List.filterMap_append, List.mem_append]
      exact .inl hleft
    · rw [hr] at hs
      refine .inr (.inr ⟨by rwa [tell_caller_of_ne hne, hcaller], ?_⟩)
      exact ((sublist_rest hs (by simp)).trans hready).trans (ready_sublist_tell d j e)
  rw [finish_eq (s := { s with ready := rest }) hj]
  rcases dispatch_cases (close { s with ready := rest } j e) with
    ⟨he, hb⟩ | ⟨y, more, -, hp, he⟩ <;> rw [he]
  · refine h.extend [] hl.toOrdered (by rw [tell_log]; simp [Desk.close]) ?_ (by simp)
    intro k x since hk _
    rcases eq_or_ne k j with rfl | hne
    · have hnext := hk.next e hj
      rw [show s.queue.pending = [] from hb rfl] at hnext
      cases hnext
    · exact other hk hne (by simp [Desk.close, hne]) rfl (List.Sublist.refl _)
        (by simp [Desk.close])
  · have hy := hclose.queued_of_pending hp
    refine h.extend [.start y] hl.toOrdered (by rw [tell_log]; rfl) ?_ (by simp)
    intro k x since hk _
    rcases eq_or_ne k j with rfl | hne
    · have hky : k ≠ y.caller := by
        rintro rfl
        simp [Desk.close] at hy
      obtain rfl : y = x := by
        have hnext := hk.next e hj
        rw [show s.queue.pending = y :: more from hp] at hnext
        exact Option.some.inj hnext
      refine ⟨fun f hf => ?_, fun f _ => ?_⟩
      · rw [tell_call] at hf
        simp [Desk.close, hky] at hf
      · -- The caller is told only now, so its step is due after that of the next call.
        by_cases hleft : k ∈ s.log.filterMap Event.left?
        · rw [tell_log]
          simp only [Desk.close, List.filterMap_append, List.mem_append]
          exact .inl (.inl hleft)
        · have hwait := (ht.served k hleft).waits (by simp [hj, CallStage.isClosed]) hpresent
          exact .inr (.inr ⟨by simp, told_after (by exact hwait) (by simp) e⟩)
    · rcases eq_or_ne k y.caller with rfl | hny
      · constructor <;> intro f hf <;> rw [tell_call] at hf <;> simp at hf
      · exact other hk hne (by simp [Desk.close, hne, hny]) rfl (List.sublist_append_left _ _) rfl

end Turn

/-- **A call that ends makes way for the next one first**, whatever happens. -/
theorem Prompt.step (h : Prompt s) (hl : Lined s) (hd : Scheduled s) (ht : Tended maxLength s)
    (x : Happening ε) : Prompt (s.step maxLength x) := by
  cases x with
  | put q => exact h.put hl hd q
  | callEnds k e => exact h.callEnds hl.toOrdered k e
  | cancel k => exact h.cancel hl.toOrdered k
  | parseEnds k p => exact h.parseEnds hl.toOrdered k p
  | turn =>
    rcases turn_cases s maxLength with ⟨-, hs⟩ | ⟨job, rest, hr, hs⟩ <;> rw [Desk.step, hs]
    · exact h
    · cases job with
      | run e => exact h.runCall hl.toOrdered hd hr
      | finish k => exact h.finish hl hd ht hr
      | wake k => exact h.wake hl.toOrdered hd hr

theorem prompt_run (maxLength : Int) (xs : List (Happening ε)) : Prompt (run maxLength xs) :=
  run_induction prompt_empty
    (fun xs x h => h.step (lined_run maxLength xs) (scheduled_run maxLength xs)
      (tended_run maxLength xs) x) xs

/-- A caller that is about to hear something finds the next call under way. -/
theorem Prompt.underway (h : Prompt s) (ht : Tended maxLength s)
    (hk : s.caller k = .parsing ∨
      (∃ e, s.caller k = .told e) ∧ ∀ x, ¬[.run x, .wake k].Sublist s.ready)
    (hn : NextWhenEnded s.log k x since) : Underway x since := by
  have hstay : k ∉ s.log.filterMap Event.left? := fun hleft => by
    rcases ht.departed k hleft with hc | hc <;> simp [hc] at hk
  obtain ⟨e, he⟩ : ∃ e, s.call k = .closed e := by
    have hs := ht.served k hstay
    rcases hk with hc | ⟨⟨f, hc⟩, -⟩
    · rw [hc] at hs
      exact hs.closed nofun nofun
    · rw [hc] at hs
      exact hs.closed nofun nofun
  rcases (h k x since hn).ahead e he with hleft | hunder | ⟨-, htold, hsub⟩
  · exact absurd hleft hstay
  · exact hunder
  · rcases hk with hc | ⟨-, hno⟩
    · simp [hc] at htold
    · exact absurd hsub (hno x)

end Desk

/-- In a log, whenever a caller hears something, the query that was next when its
call ended is under way. -/
def Timely (log : List (Event ε)) : Prop :=
  ∀ k n before after, log = before ++ .heard k n :: after →
    ∀ x since, NextWhenEnded before k x since → Underway x since

/-- A call that has started and has not ended. -/
def InFlight (log : List (Event ε)) (k : Nat) : Prop :=
  (∃ q, .start ⟨k, q⟩ ∈ log) ∧ ∀ e, .ended k e ∉ log

/-- The calls of a desk at rest to which the queries `submitted` were put. -/
structure Dispatched (submitted : List Query) (s : Desk ε) : Prop where
  /-- One call at most is in flight. -/
  one : ∀ j k, InFlight s.log j → InFlight s.log k → j = k
  /-- The queries of the calls that started come first among those submitted, in
  the same order, and the others wait. -/
  all : (s.log.filterMap Event.start? ++ s.queue.pending).map Entry.query = submitted
  /-- Each starts once: the calls are numbered as they start. -/
  once : (s.log.filterMap Event.start?).map Entry.caller =
    List.range (s.log.filterMap Event.start?).length
  /-- They reach the checker in that order, once, -/
  asked : (s.log.filterMap Event.ask?).Sublist (s.log.filterMap Event.start?)
  /-- each that was not given up before its first step. -/
  reached : ∀ e ∈ s.log.filterMap Event.start?,
    .ask e ∈ s.log ∨ .ended e.caller .cancelled ∈ s.log
  /-- While a query waits, a call is in flight. -/
  busy : s.queue.pending ≠ [] → ∃ k, InFlight s.log k
  /-- The queue knows the call in flight. -/
  flag : ∀ k, InFlight s.log k ↔ s.queue.active.map Entry.caller = some k
  /-- When a call ended, the query that waited longest was started before the
  answer was parsed or handed over. -/
  timely : Timely s.log

namespace Timely

variable {log xs : List (Event ε)} {k : Nat}

/-- Where nobody hears anything, nothing is to be shown. -/
theorem append_silent (h : Timely log) (hxs : ∀ k n, .heard k n ∉ xs) : Timely (log ++ xs) := by
  intro k n before after hsplit
  rcases List.append_eq_append_iff.1 hsplit with ⟨mid, -, hx⟩ | ⟨mid, hb, hx⟩
  · exact absurd (by simp [hx]) (hxs k n)
  · cases mid with
    | nil => exact absurd (hx ▸ List.mem_cons_self : Event.heard k n ∈ [] ++ xs) (hxs k n)
    | cons y mid =>
      obtain ⟨rfl, -⟩ := List.cons.inj hx
      exact h k n before mid hb

theorem append_heard (h : Timely log) (n : Notice ε)
    (hk : ∀ x since, NextWhenEnded log k x since → Underway x since) :
    Timely (log ++ [.heard k n]) := by
  intro j m before after hsplit
  rcases List.append_eq_append_iff.1 hsplit with ⟨mid, hb, hx⟩ | ⟨mid, hb, hx⟩
  · cases mid with
    | nil =>
      obtain rfl : before = log := by simpa using hb
      obtain ⟨⟨rfl, -⟩, -⟩ := by simpa using hx
      exact hk
    | cons y mid => simp at hx
  · cases mid with
    | nil =>
      obtain rfl : log = before := by simpa using hb
      obtain ⟨⟨rfl, -⟩, -⟩ := by simpa using hx
      exact hk
    | cons y mid =>
      obtain ⟨rfl, -⟩ := List.cons.inj hx
      exact h j m before mid hb

end Timely

namespace Desk

variable {s : Desk ε}

/-- What starting a call adds to the log. -/
theorem dispatch_log (s : Desk ε) : ∃ es : List (Entry Nat),
    s.dispatch.log = s.log ++ es.map .start := by
  rcases dispatch_cases s with ⟨he, -⟩ | ⟨e, rest, -, -, he⟩ <;> rw [he]
  · exact ⟨[], by simp⟩
  · exact ⟨[e], by simp⟩

/-- What a step adds to the log: the query if one is put, and what a caller hears
if the step is the caller's own. -/
inductive Writes (s : Desk ε) (x : Happening ε) : List (Event ε) → Prop
  | quiet {xs : List (Event ε)}
      (hput : xs.filterMap Event.put? = (x.query?.map (Entry.mk s.count)).toList)
      (hheard : ∀ k n, .heard k n ∉ xs) : Writes s x xs
  | answer (k : Nat) (n : Notice ε) (ps : List (ParseEnd ε)) (hquery : x.query? = none)
      (hk : s.caller k = .parsing ∨
        (∃ e, s.caller k = .told e) ∧ ∃ rest, s.ready = .wake k :: rest) :
      Writes s x (ps.map (.parsed k) ++ [.heard k n])

theorem log_step (maxLength : Int) (s : Desk ε) (x : Happening ε) :
    ∃ xs, (s.step maxLength x).log = s.log ++ xs ∧ s.Writes x xs := by
  cases x with
  | put q =>
    obtain ⟨es, he⟩ := dispatch_log (s.file q)
    refine ⟨.put ⟨s.count, q⟩ :: es.map .start, ?_, .quiet (by simp [Happening.query?]) (by simp)⟩
    show (s.file q).dispatch.log = _
    rw [he]
    simp [file]
  | callEnds k e =>
    rcases callEnds_cases s k e with ⟨-, hs⟩ | ⟨-, hs⟩ | hs <;> rw [Desk.step, hs]
    · exact ⟨_, rfl, .quiet rfl (by simp)⟩
    · exact ⟨[], by simp, .quiet rfl (by simp)⟩
    · exact ⟨[], by simp, .quiet rfl (by simp)⟩
  | cancel k =>
    rcases cancel_cases s k with ⟨-, hs⟩ | ⟨e, -, hs⟩ | hs <;> rw [Desk.step, hs]
    · exact ⟨_, rfl, .quiet rfl (by simp)⟩
    · exact ⟨_, rfl, .quiet rfl (by simp)⟩
    · exact ⟨[], by simp, .quiet rfl (by simp)⟩
  | parseEnds k p =>
    rcases parseEnds_cases s k p with ⟨hk, hs⟩ | ⟨-, hs⟩ <;> rw [Desk.step, hs]
    · exact ⟨_, rfl, .answer k _ [p] rfl (.inl hk)⟩
    · exact ⟨[], by simp, .quiet rfl (by simp)⟩
  | turn =>
    rcases turn_cases s maxLength with ⟨-, hs⟩ | ⟨job, rest, hr, hs⟩ <;> rw [Desk.step, hs]
    · exact ⟨[], by simp, .quiet rfl (by simp)⟩
    · cases job with
      | run e =>
        rcases runCall_cases { s with ready := rest } e with ⟨-, hs⟩ | ⟨-, hs⟩ | ⟨-, hs⟩ <;>
          rw [perform, hs]
        · exact ⟨_, rfl, .quiet rfl (by simp)⟩
        · exact ⟨_, rfl, .quiet rfl (by simp)⟩
        · exact ⟨[], by simp, .quiet rfl (by simp)⟩
      | finish k =>
        rw [perform]
        cases hk : s.call k with
        | ended e =>
          obtain ⟨es, he⟩ := dispatch_log (close { s with ready := rest } k e)
          rw [finish_eq (s := { s with ready := rest }) hk, tell_log, he]
          exact ⟨_, rfl, .quiet (by simp [Happening.query?]) (by simp)⟩
        | _ => exact ⟨[], by simp [finish, hk], .quiet rfl (by simp)⟩
      | wake k =>
        rcases wake_cases { s with ready := rest } k maxLength with
          ⟨e, text, hk, -, hs⟩ | ⟨e, hk, -, hs⟩ | ⟨-, hs⟩ | ⟨-, hs⟩ <;> rw [perform, hs]
        · exact ⟨_, rfl, .answer k _ [] rfl (.inr ⟨⟨e, hk⟩, rest, hr⟩)⟩
        · exact ⟨_, rfl, .answer k _ [] rfl (.inr ⟨⟨e, hk⟩, rest, hr⟩)⟩
        · exact ⟨_, rfl, .quiet rfl (by simp)⟩
        · exact ⟨[], by simp, .quiet rfl (by simp)⟩

/-- A caller hears of its answer only in its own step. -/
theorem timely_step (h : Timely s.log) (hd : Scheduled s) (ht : Tended maxLength s)
    (hp : Prompt s) (x : Happening ε) : Timely (s.step maxLength x).log := by
  obtain ⟨xs, hlog, hxs⟩ := log_step maxLength s x
  rw [hlog]
  cases hxs with
  | quiet _ hheard => exact h.append_silent hheard
  | answer k n ps _ hk =>
    rw [← List.append_assoc]
    refine (h.append_silent (by simp)).append_heard n fun y since hn => ?_
    obtain ⟨since₀, rfl, hn₀⟩ := hn.of_append.resolve_right (by simp)
    have hnow : s.caller k = .parsing ∨
        (∃ e, s.caller k = .told e) ∧ ∀ z, ¬[.run z, .wake k].Sublist s.ready := by
      refine hk.imp id fun ⟨htold, rest, hr⟩ => ⟨htold, fun z hs => ?_⟩
      rw [hr] at hs
      exact (hd.pop hr).2.1 ((sublist_rest hs (by simp)).subset (by simp))
    exact (hp.underway ht hnow hn₀).append _

/-- **No answer overtakes the next call.** -/
theorem timely_run (maxLength : Int) (xs : List (Happening ε)) : Timely (run maxLength xs).log :=
  run_induction (P := fun s => Timely s.log) (by intro k n before after hb; simp [empty] at hb)
    (fun xs x h => timely_step h (scheduled_run maxLength xs) (tended_run maxLength xs)
      (prompt_run maxLength xs) x) xs

/-- The queries put are those that were handed in. -/
theorem puts_run (xs : List (Happening ε)) :
    ((run maxLength xs).log.filterMap Event.put?).map Entry.query =
      xs.filterMap Happening.query? := by
  induction xs using List.reverseRecOn with
  | nil => rfl
  | append_singleton xs x ih =>
    obtain ⟨ys, hlog, hys⟩ := log_step maxLength (run maxLength xs) x
    have hlast : [x].filterMap Happening.query? = x.query?.toList := by
      cases hq : x.query? <;> simp [hq]
    simp only [run, List.foldl_append, List.foldl_cons, List.foldl_nil] at ih hlog ⊢
    rw [hlog, List.filterMap_append, List.map_append, ih, List.filterMap_append, hlast]
    cases hys with
    | quiet hput _ => rw [hput]; cases x.query? <;> rfl
    | answer k n ps hquery _ => simp [hquery]

/-! ## The desk at rest -/

variable {log : List (Event ε)} {k : Nat}

/-- What the log says of a call is where it stands. -/
theorem Ordered.inFlight_iff (h : Ordered s) : InFlight s.log k ↔ (s.call k).inFlight := by
  have hends : (∀ e, .ended k e ∉ s.log) ↔ (s.call k).ending = none := by
    rw [← Option.toList_eq_nil_iff, ← h.ends, List.filterMap_eq_nil_iff]
    constructor
    · intro hno x hx
      cases x <;> simp
      rintro rfl
      exact hno _ hx
    · intro hall e he
      simpa using hall _ he
  have hstart : (∃ q, .start ⟨k, q⟩ ∈ s.log) ↔ s.call k ≠ .queued := by
    have hmem : k ∈ (s.log.filterMap Event.start?).map Entry.caller ↔ s.call k ≠ .queued := by
      rw [h.starts_numbered, List.mem_range, Ne, h.queued, Nat.not_le]
    rw [← hmem]
    simp only [List.mem_map, List.mem_filterMap]
    constructor
    · rintro ⟨q, hq⟩
      exact ⟨⟨k, q⟩, ⟨_, hq, rfl⟩, rfl⟩
    · rintro ⟨e, ⟨x, hx, hxe⟩, rfl⟩
      cases x <;> simp at hxe
      subst hxe
      exact ⟨_, hx⟩
  rw [InFlight, hends, hstart]
  cases s.call k <;> simp [CallStage.inFlight, CallStage.ending]

/-- **The queue at rest.** Whatever was put, ended and cancelled before, in
whatever order, the calls are those of `Dispatched`. -/
theorem dispatched_in_order (maxLength : Int) (xs : List (Happening ε))
    (hrest : (run maxLength xs).ready = []) :
    Dispatched (xs.filterMap Happening.query?) (run maxLength xs) := by
  have hl := lined_run maxLength xs
  have hd := scheduled_run maxLength xs
  have hr := reached_run maxLength xs
  have hflag k : InFlight (run maxLength xs).log k ↔
      (run maxLength xs).queue.active.map Entry.caller = some k := by
    rw [hl.inFlight_iff, Option.map_eq_some_iff, ← hl.inHand k]
    have hnot := (hd.finishes k).not.1 (by simp [hrest])
    cases hc : (run maxLength xs).call k with
    | ended f => exact absurd ⟨f, hc⟩ hnot
    | _ => simp [CallStage.inFlight, CallStage.inHand]
  exact {
    one := fun j k hj hk => Option.some.inj (((hflag j).1 hj).symm.trans ((hflag k).1 hk))
    all := by rw [hl.filed, puts_run]
    once := hl.starts_numbered
    asked := by simpa [hrest] using hr.inOrder
    reached := fun e he => by
      refine (hr.each e he).resolve_left fun hu => ?_
      have hin : ((run maxLength xs).call e.caller).inHand := by
        revert hu
        cases (run maxLength xs).call e.caller <;> simp [CallStage.unrun, CallStage.inHand]
      obtain ⟨a, ha, hae⟩ := (hl.inHand _).1 hin
      have := (hd.runs a).2 ⟨ha, hae ▸ hu⟩
      simp [hrest] at this
    busy := fun hp => by
      obtain ⟨a, ha⟩ := Option.ne_none_iff_exists'.1 (mt hl.busy hp)
      exact ⟨a.caller, (hflag _).2 (by simp [ha])⟩
    flag := hflag
    timely := timely_run maxLength xs }

/-- One call is given up before its first step and one ends, a caller is
cancelled, and a query waits behind the call in flight. -/
theorem dispatched_in_order_sample :
    let q (line : Nat) : Query := ⟨"a.js", ⟨"a.js", ⟨line, 0⟩, ⟨line, 1⟩⟩⟩
    let xs : List (Happening String) := [.put (q 1), .put (q 2), .put (q 3),
      .callEnds 0 .cancelled, .turn, .turn, .turn, .turn, .cancel 2, .put (q 4), .turn,
      .callEnds 1 .unavailable, .turn, .turn, .turn]
    (run 100 xs).ready = [] ∧ (run 100 xs).queue.pending.length = 1 ∧
      Dispatched [q 1, q 2, q 3, q 4] (run 100 xs) := by
  intro q xs
  have h : (run 100 xs).ready = [] := by decide
  exact ⟨h, by decide, dispatched_in_order 100 xs h⟩

end Desk

end Retype.Inference
