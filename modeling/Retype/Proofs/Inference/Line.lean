import Retype.Proofs.Inference.Desk
/-!
# The line of calls

What holds of the calls after everything that may happen: the queries are
numbered as they come, those whose calls started stand before those that wait,
one call at most is in hand, and none waits while no call is in hand. Callers
have no part in it (`calls`): what they do and what is done to them leaves the
calls as they are.
-/

namespace Retype.Inference

namespace Queue

variable {ι : Type} {q : Queue ι} {a e : Entry ι} {rest : List (Entry ι)}

/-- A question waits while a call is in flight. -/
theorem submit_busy (h : q.active = some a) (e : Entry ι) :
    q.submit e = (⟨q.pending ++ [e], some a⟩, none) := by
  simp [submit, dispatch, h]

/-- It starts at once when nobody waits. -/
theorem submit_idle (h : q.active = none) (hp : q.pending = []) (e : Entry ι) :
    q.submit e = (⟨[], some e⟩, some e) := by
  simp [submit, dispatch, h, hp]

/-- The last call leaves an empty queue. -/
theorem finish_last (hp : q.pending = []) : q.finish = (⟨[], none⟩, none) := by
  simp [finish, dispatch, hp]

/-- The next call starts when one ends. -/
theorem finish_next (hp : q.pending = e :: rest) : q.finish = (⟨rest, some e⟩, some e) := by
  simp [finish, dispatch, hp]

end Queue

variable {ε : Type} {maxLength : Int}

/-! ## The desk without its callers -/

/-- What the log says of calls. -/
def Event.ofCall : Event ε → Bool
  | put _ | start _ | ask _ | ended _ _ => true
  | _ => false

namespace CallStage

variable {c : CallStage ε}

/-- A call in flight is in hand. -/
theorem inHand_of_inFlight (h : c.inFlight) : c.inHand := by
  cases c <;> first | rfl | cases h

/-- A call in hand is not queued. -/
theorem ne_queued_of_inHand (h : c.inHand) : c ≠ queued := by
  rintro rfl
  cases h

/-- A call in flight has no ending. -/
theorem ending_of_inFlight (h : c.inFlight) : c.ending = none := by
  cases c <;> first | rfl | cases h

/-- A call that is neither queued nor in hand has one. -/
theorem isSome_ending (hq : c ≠ queued) (hh : c.inHand = false) : c.ending.isSome := by
  cases c <;> first | rfl | exact absurd rfl hq | cases hh

end CallStage

/-- What is due for calls. -/
def Job.ofCall : Job → Bool
  | run _ | finish _ => true
  | wake _ => false

namespace Desk

variable {s : Desk ε} {e : Entry Nat} {k : Nat}

/-- The desk as far as calls go. -/
def calls (s : Desk ε) : Desk ε :=
  { s with
    caller := fun _ => .absent
    ready := s.ready.filter Job.ofCall
    log := s.log.filter Event.ofCall }

/-- Looking at the calls alone keeps the queue. -/
@[simp] theorem calls_queue : s.calls.queue = s.queue := rfl

/-- It keeps what is known of each call. -/
@[simp] theorem calls_call : s.calls.call = s.call := rfl

/-- It keeps those jobs that are about calls. -/
@[simp] theorem calls_ready : s.calls.ready = s.ready.filter Job.ofCall := rfl

/-- Desks that agree on calls have logs that agree on them. -/
theorem filterMap_eq_of_calls {β : Type} {r : Event ε → Option β} {t : Desk ε}
    (h : t.calls = s.calls) (hr : ∀ x, x.ofCall = false → r x = none) :
    t.log.filterMap r = s.log.filterMap r := by
  have keep (u : Desk ε) : u.calls.log.filterMap r = u.log.filterMap r := by
    simp only [calls, List.filterMap_filter]
    congr 1
    funext x
    cases hx : x.ofCall <;> simp [hr, hx]
  rw [← keep t, h, keep s]

/-- **A cancellation leaves the calls as they are.** -/
theorem cancel_calls (s : Desk ε) (k : Nat) : (s.cancel k).calls = s.calls := by
  rcases cancel_cases s k with ⟨-, hs⟩ | ⟨e, -, hs⟩ | hs <;> rw [hs]
  · simp [calls, Event.ofCall, Job.ofCall]
  · simp [calls, Event.ofCall]

/-- So does a parse that returns, -/
theorem parseEnds_calls (s : Desk ε) (k : Nat) (p : ParseEnd ε) :
    (s.parseEnds k p).calls = s.calls := by
  rcases parseEnds_cases s k p with ⟨-, hs⟩ | ⟨-, hs⟩ <;> rw [hs]
  simp [calls, Event.ofCall]

/-- a caller that runs, -/
theorem wake_calls (s : Desk ε) (k : Nat) : (s.wake maxLength k).calls = s.calls := by
  rcases wake_cases s k maxLength with ⟨e, text, -, -, hs⟩ | ⟨e, -, -, hs⟩ | ⟨-, hs⟩ | ⟨-, hs⟩ <;>
    rw [hs]
  all_goals simp [calls, Event.ofCall]

/-- and a caller that is told its answer. -/
theorem tell_calls (s : Desk ε) (k : Nat) (e : Ending ε) : (s.tell k e).calls = s.calls := by
  rcases tell_cases s k e with ⟨-, hs⟩ | ⟨-, hs⟩ <;> rw [hs]
  simp [calls, Job.ofCall]

/-! ## What is kept -/

/-- The calls of a desk in order. -/
structure Ordered (s : Desk ε) : Prop where
  numbered : (s.log.filterMap Event.put?).map Entry.caller = List.range s.count
  filed : s.log.filterMap Event.start? ++ s.queue.pending = s.log.filterMap Event.put?
  active : ∀ e, s.queue.active = some e → ∃ before, s.log.filterMap Event.start? = before ++ [e]
  inHand : ∀ k, (s.call k).inHand ↔ ∃ e, s.queue.active = some e ∧ e.caller = k
  queued : ∀ k, s.call k = .queued ↔ (s.log.filterMap Event.start?).length ≤ k
  ends : ∀ k, s.log.filterMap (Event.ending? k) = (s.call k).ending.toList
  concluded : ∀ k, (s.call k).ending.isSome ↔ k < (s.log.filterMap Event.ended?).length

/-- And none of them waits while the queue is free. -/
structure Lined (s : Desk ε) : Prop extends Ordered s where
  busy : s.queue.active = none → s.queue.pending = []

/-- Only calls count for it. -/
theorem Lined.of_calls {t : Desk ε} (h : Lined s) (e : t.calls = s.calls) : Lined t := by
  have hputs : t.log.filterMap Event.put? = s.log.filterMap Event.put? :=
    filterMap_eq_of_calls e (by rintro (_ | _) <;> simp [Event.ofCall])
  have hstarts : t.log.filterMap Event.start? = s.log.filterMap Event.start? :=
    filterMap_eq_of_calls e (by rintro (_ | _) <;> simp [Event.ofCall])
  have hended : t.log.filterMap Event.ended? = s.log.filterMap Event.ended? :=
    filterMap_eq_of_calls e (by rintro (_ | _) <;> simp [Event.ofCall])
  have hends k : t.log.filterMap (Event.ending? k) = s.log.filterMap (Event.ending? k) :=
    filterMap_eq_of_calls e (by rintro (_ | _) <;> simp [Event.ofCall])
  have hcount : t.count = s.count := show t.calls.count = s.calls.count by rw [e]
  have hqueue : t.queue = s.queue := show t.calls.queue = s.calls.queue by rw [e]
  have hcall : t.call = s.call := show t.calls.call = s.calls.call by rw [e]
  exact {
    numbered := by rw [hputs, hcount]; exact h.numbered
    filed := by rw [hputs, hstarts, hqueue]; exact h.filed
    active := by rw [hstarts, hqueue]; exact h.active
    inHand := by rw [hcall, hqueue]; exact h.inHand
    queued := by rw [hcall, hstarts]; exact h.queued
    ends := fun k => by rw [hcall, hends]; exact h.ends k
    concluded := by rw [hcall, hended]; exact h.concluded
    busy := by rw [hqueue]; exact h.busy }

namespace Ordered

variable (h : Ordered s)
include h

/-- The calls that have started are numbered from zero. -/
theorem starts_numbered :
    (s.log.filterMap Event.start?).map Entry.caller =
      List.range (s.log.filterMap Event.start?).length := by
  -- The queries that started are the first of those that were put.
  have hn := congrArg (List.take (s.log.filterMap Event.start?).length) h.numbered
  rw [← h.filed, List.map_append, List.take_left' (by simp), List.take_range] at hn
  have hl := congrArg List.length h.numbered
  rw [← h.filed] at hl
  simp only [List.map_append, List.length_append, List.length_map, List.length_range] at hl
  rwa [Nat.min_eq_left (by omega)] at hn

/-- Calls that have started and calls that wait are all that were put. -/
theorem length_add : (s.log.filterMap Event.start?).length + s.queue.pending.length = s.count := by
  have hl := congrArg List.length h.numbered
  rw [← h.filed] at hl
  simpa using hl

/-- The active call is the last that started. -/
theorem active_number (ha : s.queue.active = some e) :
    e.caller + 1 = (s.log.filterMap Event.start?).length := by
  obtain ⟨before, hb⟩ := h.active e ha
  have hn := congrArg List.getLast? h.starts_numbered
  rw [hb] at hn ⊢
  simp [List.getLast?_range] at hn ⊢
  omega

/-- The query that waits longest has the next number. -/
theorem pending_number {rest : List (Entry Nat)} (hp : s.queue.pending = e :: rest) :
    e.caller = (s.log.filterMap Event.start?).length := by
  have hn := congrArg (·[(s.log.filterMap Event.start?).length]?) h.numbered
  rw [← h.filed, hp] at hn
  have hl := h.length_add
  rw [hp] at hl
  simp only [List.length_cons] at hl
  simp [List.getElem?_range (show (s.log.filterMap Event.start?).length < s.count by omega)] at hn
  exact hn

/-- While a call is in flight, those before it have ended and no other. -/
theorem length_ended (hk : (s.call k).inFlight) : (s.log.filterMap Event.ended?).length = k := by
  obtain ⟨a, ha, rfl⟩ := (h.inHand k).1 (CallStage.inHand_of_inFlight hk)
  have hlast := h.active_number ha
  refine Nat.le_antisymm (Nat.not_lt.1 fun hlt => ?_) (Nat.not_lt.1 fun hlt => ?_)
  · simpa [CallStage.ending_of_inFlight hk] using (h.concluded a.caller).2 hlt
  · -- The number after the last that ended: it has started and is not in hand, so it
    -- has ended as well.
    have hq := (h.queued (s.log.filterMap Event.ended?).length).not.2 (by omega)
    have hh : (s.call (s.log.filterMap Event.ended?).length).inHand = false := by
      rw [Bool.eq_false_iff]
      intro hh
      obtain ⟨b, hb, hbk⟩ := (h.inHand _).1 hh
      obtain rfl : a = b := Option.some.inj (ha.symm.trans hb)
      omega
    exact absurd ((h.concluded _).1 (CallStage.isSome_ending hq hh)) (Nat.lt_irrefl _)

end Ordered

/-! ## One step -/

/-- An empty desk is in order. -/
theorem lined_empty : Lined (empty : Desk ε) where
  numbered := rfl
  filed := rfl
  busy := fun _ => rfl
  active := nofun
  inHand k := by simp [empty, Queue.empty, CallStage.inHand]
  queued k := by simp [empty]
  ends k := rfl
  concluded k := by simp [empty, CallStage.ending]

/-- The next call starts if none is in hand. -/
def dispatch (s : Desk ε) : Desk ε :=
  { s with queue := s.queue.dispatch.1 }.launch s.queue.dispatch.2

/-- All that starting the next call can do. -/
theorem dispatch_cases (s : Desk ε) :
    (s.dispatch = s ∧ (s.queue.active = none → s.queue.pending = [])) ∨
      ∃ e rest, s.queue.active = none ∧ s.queue.pending = e :: rest ∧
        s.dispatch = { s with
          queue := ⟨rest, some e⟩
          call := Function.update s.call e.caller .created
          ready := s.ready ++ [.run e]
          log := s.log ++ [.start e] } := by
  cases ha : s.queue.active with
  | some a => exact .inl ⟨by simp [dispatch, Queue.dispatch, ha, launch], nofun⟩
  | none =>
    cases hp : s.queue.pending with
    | nil => exact .inl ⟨by simp [dispatch, Queue.dispatch, ha, hp, launch], fun _ => rfl⟩
    | cons e rest =>
      exact .inr ⟨e, rest, rfl, rfl, by simp [dispatch, Queue.dispatch, ha, hp, launch]⟩

/-- A query that waits has not started. -/
theorem Ordered.queued_of_pending (h : Ordered s) {rest : List (Entry Nat)}
    (hp : s.queue.pending = e :: rest) : s.call e.caller = .queued :=
  (h.queued e.caller).2 (Nat.le_of_eq (h.pending_number hp).symm)

/-- **What the queue starts restores the order**: after it no query waits while
the queue is free. -/
theorem Ordered.dispatch (h : Ordered s) : Lined s.dispatch := by
  rcases dispatch_cases s with ⟨he, hb⟩ | ⟨e, rest, ha, hp, he⟩
  · rw [he]
    exact ⟨h, hb⟩
  · have hnumber := h.pending_number hp
    have hnew := h.queued_of_pending hp
    have hfree k : (s.call k).inHand = false := by
      simpa [ha] using (h.inHand k).not
    rw [he]
    exact {
      numbered := by simpa [List.filterMap_cons] using h.numbered
      filed := by simpa [hp, List.filterMap_cons] using h.filed
      active := fun a haa => ⟨s.log.filterMap Event.start?, by simp_all⟩
      inHand := fun k => by
        rcases eq_or_ne k e.caller with rfl | hk
        · simp [CallStage.inHand]
        · simpa [hk, hfree] using hk.symm
      queued := fun k => by
        have hk := h.queued k
        rcases eq_or_ne k e.caller with rfl | hne
        · simp [hnumber]
        · simp [hne, hk]
          omega
      ends := fun k => by
        have hk := h.ends k
        rcases eq_or_ne k e.caller with rfl | hne
        · simpa [hnew, CallStage.ending, List.filterMap_cons] using hk
        · simpa [hne, List.filterMap_cons] using hk
      concluded := fun k => by
        have hk := h.concluded k
        rcases eq_or_ne k e.caller with rfl | hne
        · simpa [hnew, CallStage.ending, List.filterMap_cons] using hk
        · simpa [hne, List.filterMap_cons] using hk
      busy := nofun }

/-- A call in flight moves on and stays in hand. -/
theorem Lined.move {c : CallStage ε} (ready : List Job) (xs : List (Event ε)) (h : Lined s)
    (hk : (s.call k).inFlight) (hc : c.inHand) (hputs : xs.filterMap Event.put? = [])
    (hstarts : xs.filterMap Event.start? = [])
    (hends : ∀ j, xs.filterMap (Event.ending? j) = if k = j then c.ending.toList else [])
    (hended : (xs.filterMap Event.ended?).length = if c.ending.isSome then 1 else 0) :
    Lined { s with call := Function.update s.call k c, ready, log := s.log ++ xs } where
  numbered := by simpa [hputs] using h.numbered
  filed := by simpa [hputs, hstarts] using h.filed
  busy := h.busy
  active := by simpa [hstarts] using h.active
  inHand j := by
    rcases eq_or_ne j k with rfl | hj
    · simpa [hc] using (h.inHand j).1 (CallStage.inHand_of_inFlight hk)
    · simpa [hj] using h.inHand j
  queued j := by
    rcases eq_or_ne j k with rfl | hj
    · have := (h.queued j).not.1 (CallStage.ne_queued_of_inHand (CallStage.inHand_of_inFlight hk))
      simpa [hstarts, CallStage.ne_queued_of_inHand hc] using this
    · simpa [hstarts, hj] using h.queued j
  ends j := by
    have hj := h.ends j
    rcases eq_or_ne j k with rfl | hne
    · simp [hends, hj, CallStage.ending_of_inFlight hk]
    · simp [hends, hj, hne, hne.symm]
  concluded j := by
    have hlen := h.length_ended hk
    have hj := h.concluded j
    rw [hlen] at hj
    rcases eq_or_ne j k with rfl | hne
    · cases he : c.ending <;> simp [hended, he, hlen]
    · simp only [ne_eq, hne, not_false_eq_true, Function.update_of_ne, List.filterMap_append,
        List.length_append, hlen, hended, hj]
      split <;> omega

/-- A call ends, or is given up before its first step. -/
theorem Lined.callEnds (h : Lined s) (k : Nat) (e : Ending ε) : Lined (s.callEnds k e) := by
  rcases callEnds_cases s k e with ⟨hk, hs⟩ | ⟨hk, hs⟩ | hs <;> rw [hs]
  · exact h.move _ _ (by simp [hk, CallStage.inFlight]) rfl rfl rfl
      (Event.filterMap_ended _ · _) rfl
  · simpa using h.move (c := .givenUp) s.ready []
      (by simp [hk, CallStage.inFlight]) rfl rfl rfl (by simp [CallStage.ending]) rfl
  · exact h

/-- A call takes its first step. -/
theorem Lined.runCall (h : Lined s) (e : Entry Nat) : Lined (s.runCall e) := by
  rcases runCall_cases s e with ⟨hk, hs⟩ | ⟨hk, hs⟩ | ⟨-, hs⟩ <;> rw [hs]
  · exact h.move _ _ (by simp [hk, CallStage.inFlight]) rfl rfl rfl
      (by simp [CallStage.ending]) rfl
  · exact h.move _ _ (by simp [hk, CallStage.inFlight]) rfl rfl rfl
      (Event.filterMap_ended _ · _) rfl
  · exact h

/-- A query in the line, before any call is started for it. -/
def file (s : Desk ε) (q : Query) : Desk ε :=
  { s with
    count := s.count + 1
    queue := ⟨s.queue.pending ++ [⟨s.count, q⟩], s.queue.active⟩
    caller := Function.update s.caller s.count .waiting
    log := s.log ++ [.put ⟨s.count, q⟩] }

/-- The end of a call in the queue's books, before the next one is started. -/
def close (s : Desk ε) (k : Nat) (e : Ending ε) : Desk ε :=
  { s with queue := ⟨s.queue.pending, none⟩, call := Function.update s.call k (.closed e) }

/-- A question is filed, and the queue moves on if it can. -/
theorem put_eq (s : Desk ε) (q : Query) : s.put q = (s.file q).dispatch := rfl

/-- A call that ends is closed, the queue moves on, and its caller is told. -/
theorem finish_eq {e : Ending ε} (hk : s.call k = .ended e) :
    s.finish k = ((s.close k e).dispatch).tell k e := by
  simp only [finish, hk]
  rfl

/-- Filing a question keeps the order. -/
theorem Ordered.file (h : Ordered s) (q : Query) : Ordered (s.file q) where
  numbered := by simpa [Desk.file, List.filterMap_cons, List.range_succ] using h.numbered
  filed := by simpa [Desk.file, List.filterMap_cons, ← List.append_assoc] using h.filed
  active := by simpa [Desk.file, List.filterMap_cons] using h.active
  inHand := h.inHand
  queued := by simpa [Desk.file, List.filterMap_cons] using h.queued
  ends := by simpa [Desk.file, List.filterMap_cons] using h.ends
  concluded := by simpa [Desk.file, List.filterMap_cons] using h.concluded

/-- So does closing a call. -/
theorem Ordered.close {e : Ending ε} (h : Ordered s) (hk : s.call k = .ended e) :
    Ordered (s.close k e) where
  numbered := h.numbered
  filed := h.filed
  active := nofun
  inHand j := by
    have hin : (s.call k).inHand := by simp [hk, CallStage.inHand]
    obtain ⟨a, ha, rfl⟩ := (h.inHand k).1 hin
    rcases eq_or_ne j a.caller with rfl | hj
    · simp [Desk.close, CallStage.inHand]
    · simpa [Desk.close, hj, ha, hj.symm] using (h.inHand j).not.2
  queued j := by
    have hq := h.queued j
    rcases eq_or_ne j k with rfl | hj
    · simpa [Desk.close, hk] using hq
    · simpa [Desk.close, hj] using hq
  ends j := by
    have he := h.ends j
    rcases eq_or_ne j k with rfl | hj
    · simpa [Desk.close, hk, CallStage.ending] using he
    · simpa [Desk.close, hj] using he
  concluded j := by
    have ho := h.concluded j
    rcases eq_or_ne j k with rfl | hj
    · simpa [Desk.close, hk, CallStage.ending] using ho
    · simpa [Desk.close, hj] using ho

/-- A query is put. -/
theorem Lined.put (h : Lined s) (q : Query) : Lined (s.put q) := (h.file q).dispatch

/-- A call is completed. -/
theorem Lined.finish (h : Lined s) (k : Nat) : Lined (s.finish k) := by
  cases hk : s.call k with
  | ended e =>
    rw [finish_eq hk]
    exact (h.close hk).dispatch.of_calls (tell_calls _ _ _)
  | _ => simpa [Desk.finish, hk] using h

/-- Jobs that are ready do not matter to the line. -/
theorem Lined.with_ready (h : Lined s) (ready : List Job) : Lined { s with ready } :=
  ⟨⟨h.numbered, h.filed, h.active, h.inHand, h.queued, h.ends, h.concluded⟩, h.busy⟩

/-- One job is run. -/
theorem Lined.perform (h : Lined s) (job : Job) : Lined (s.perform maxLength job) := by
  cases job with
  | run e => exact h.runCall e
  | finish k => exact h.finish k
  | wake k => exact h.of_calls (wake_calls s k)

/-- **The calls stay in line**, whatever happens. -/
theorem Lined.step (h : Lined s) (x : Happening ε) : Lined (s.step maxLength x) := by
  cases x with
  | put q => exact h.put q
  | callEnds k e => exact h.callEnds k e
  | cancel k => exact h.of_calls (cancel_calls s k)
  | parseEnds k p => exact h.of_calls (parseEnds_calls s k p)
  | turn =>
    rcases turn_cases s maxLength with ⟨-, hs⟩ | ⟨job, rest, -, hs⟩ <;> rw [Desk.step, hs]
    · exact h
    · exact (h.with_ready rest).perform job

/-- **The line is in order at every moment.** -/
theorem lined_run (maxLength : Int) (xs : List (Happening ε)) : Lined (run maxLength xs) :=
  run_induction lined_empty (fun _ x h => h.step x) xs

end Desk

end Retype.Inference
