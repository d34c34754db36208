import Mathlib.Data.List.Forall2
import Retype.Proofs.Dispatch.Action
/-!
# A run that reports no stalls

`RunState.quietRun` is a run that never asks how long to wait and never looks
for stalled batches. Where its waits are answered as those of a run were, it
does what the run does: it has the same calls in the same order, ends in the
same way and has the same reports (`quietRun_alike`). The two states differ in
the deadlines of the sessions and in what is printed, and nothing that is sent
depends on either.
-/

namespace Retype.Dispatch

variable {σ : Type}

open Session

/-! ## The quiet run -/

/-- The surroundings in which every wait lasts as long as a list says, whatever
is asked for. -/
def Surroundings.retimed (w : Surroundings σ) : Surroundings (σ × List (Option Double)) where
  now u := w.now u.1
  spawn u number := (((w.spawn u.1 number).1, u.2), (w.spawn u.1 number).2)
  send u number m := (((w.send u.1 number m).1, u.2), (w.send u.1 number m).2)
  wait u numbers _ :=
    (((w.wait u.1 numbers (u.2.headD none)).1, u.2.tail), (w.wait u.1 numbers (u.2.headD none)).2)
  receive u number := (((w.receive u.1 number).1, u.2), (w.receive u.1 number).2)
  terminate u number := (w.terminate u.1 number, u.2)

namespace Run

/-- A round in which nobody is reported. -/
def quietRound (w : Surroundings σ) (o : Settings) : Run σ Bool := do
  let live ← live
  if live.isEmpty then return false
  else
    let ready ← wait w (live.map (·.number)) none
    (live.filter fun s => ready.contains s.number).forM (attend w o)
    return true

def quietRounds (w : Surroundings σ) (o : Settings) : Nat → Run σ Bool
  | 0 => return false
  | n + 1 => do
    if ← quietRound w o then quietRounds w o n else return true

end Run

/-- A run in which nobody is reported. -/
def RunState.quietRun (w : Surroundings σ) (o : Settings) (maxRounds : Nat) (s : RunState σ) :
    RunEnd × RunState σ :=
  match (do Run.start w o; Run.quietRounds w o maxRounds : Run σ Bool) s with
  | (.error cause, s) => (.failed cause, s.shutDown w)
  | (.ok true, s) => (.finished, s.shutDown w)
  | (.ok false, s) => (.unfinished, s)

/-! ## What is compared -/

/-- What is done to a worker, or waited for, but not how long. -/
def Event.deed? : Event → Option Event
  | .printed _ => none
  | .waited numbers _ => some (.waited numbers none)
  | e => some e

/-- How long a wait may last. -/
def Event.patience? : Event → Option (Option Double)
  | .waited _ t => some t
  | _ => none

/-- How long the waits of a run may last, in order. -/
def timesAsked (events : List Event) : List (Option Double) := events.filterMap Event.patience?

/-- Sessions that differ in nothing but their deadlines. -/
structure Session.Like (x y : Session) : Prop where
  number : x.number = y.number
  state : x.state = y.state
  batch : x.batch = y.batch

/-- **States of a run and of a quiet run** that have come equally far. The
quiet one has yet to wait for some times. -/
structure Alike (s : RunState σ) (q : RunState (σ × List (Option Double)))
    (times : List (Option Double)) : Prop where
  surroundings : q.surroundings = (s.surroundings, times)
  queue : q.queue = s.queue
  reports : q.reports = s.reports
  sessions : List.Forall₂ Session.Like s.sessions q.sessions
  deeds : q.events.filterMap Event.deed? = s.events.filterMap Event.deed?

/-- A session is like itself. -/
theorem Session.Like.refl (x : Session) : Session.Like x x := ⟨rfl, rfl, rfl⟩

/-- A state of a run as one of a quiet run. -/
theorem Alike.of_state (s : RunState σ) (times : List (Option Double)) :
    Alike s ⟨(s.surroundings, times), s.queue, s.sessions, s.reports, s.events⟩ times :=
  ⟨rfl, rfl, rfl, List.forall₂_same.2 fun x _ => .refl x, rfl⟩

/-- Results that agree: both values, or the same failure. -/
def Agree {α β : Type} (R : α → β → Prop) : Except DispatchError α → Except DispatchError β → Prop
  | .ok a, .ok b => R a b
  | .error e, .error e' => e = e'
  | _, _ => False

namespace Session.Like

variable {x y : Session}

/-- Sessions that are alike are both live or both over. -/
theorem isLive (h : Like x y) : x.isLive = y.isLive := by
  rw [Session.isLive, Session.isLive, h.state]

/-- The same change of the same session keeps two crews alike. -/
theorem change {f : Session → Session} (hf : ∀ x y, Like x y → Like (f x) (f y))
    {xs ys : List Session}
    (h : List.Forall₂ Like xs ys) (number : Nat) :
    List.Forall₂ Like (Session.change number f xs) (Session.change number f ys) := by
  induction h with
  | nil => exact .nil
  | @cons x y xs ys hxy _ ih =>
    refine .cons ?_ ih
    change Like (if x.number = number then f x else x) (if y.number = number then f y else y)
    rw [← hxy.number]
    split_ifs
    · exact hf x y hxy
    · exact hxy

/-- The live sessions of two crews that are alike are alike. -/
theorem live {xs ys : List Session} (h : List.Forall₂ Like xs ys) :
    List.Forall₂ Like (xs.filter (·.isLive)) (ys.filter (·.isLive)) :=
  List.rel_filter (fun _ _ hxy => by simp only [hxy.isLive]) h

/-- So are the sessions that are ready. -/
theorem ready {xs ys : List Session} (h : List.Forall₂ Like xs ys) (ready : List Nat) :
    List.Forall₂ Like (xs.filter fun x => ready.contains x.number)
      (ys.filter fun y => ready.contains y.number) :=
  List.rel_filter (fun _ _ hxy => by simp only [hxy.number]) h

/-- They bear the same numbers. -/
theorem numbers {xs ys : List Session} (h : List.Forall₂ Like xs ys) :
    ys.map (·.number) = xs.map (·.number) := by
  induction h with
  | nil => rfl
  | cons hxy _ ih => rw [List.map_cons, List.map_cons, ih, hxy.number]

end Session.Like

/-! ## Steps that wait for nobody -/

/-- **Steps that do the same** in a run and in a quiet run, and do not wait. -/
def Run.Quietly {α β : Type} (R : α → β → Prop) (x : Run σ α)
    (y : Run (σ × List (Option Double)) β) : Prop :=
  ∀ s q times, Alike s q times →
    Agree R (x s).1 (y q).1 ∧ Alike (x s).2 (y q).2 times ∧
      timesAsked (x s).2.events = timesAsked s.events

namespace Run.Quietly

variable {α β γ δ : Type} {R : α → β → Prop} {T : γ → δ → Prop}
variable {w : Surroundings σ} {o : Settings}

/-- Two runs that agree quietly and go on quietly agree quietly to the end. -/
theorem bind {x : Run σ α} {y : Run (σ × List (Option Double)) β} {g : α → Run σ γ}
    {g' : β → Run (σ × List (Option Double)) δ} (hx : Quietly R x y)
    (hg : ∀ a b, R a b → Quietly T (g a) (g' b)) : Quietly T (x >>= g) (y >>= g') := by
  intro s q times h
  have hboth := hx s q times h
  rw [bind_apply, bind_apply]
  rcases hxs : x s with ⟨e | a, s'⟩
  · rcases hyq : y q with ⟨e' | b, q'⟩ <;> rw [hxs, hyq] at hboth
    · exact hboth
    · exact False.elim hboth.1
  · rcases hyq : y q with ⟨e' | b, q'⟩ <;> rw [hxs, hyq] at hboth
    · exact False.elim hboth.1
    · obtain ⟨hagree, halike, hasked⟩ := hboth
      obtain ⟨hagree', halike', hasked'⟩ := hg a b hagree s' q' times halike
      exact ⟨hagree', halike', hasked'.trans hasked⟩

/-- Runs that only give a value agree when the values do. -/
theorem pure {a : α} {b : β} (h : R a b) : Quietly (σ := σ) R (Pure.pure a) (Pure.pure b) :=
  fun _ _ _ halike => ⟨h, halike, rfl⟩

/-- The same failure is quiet on both sides. -/
theorem throw (e : DispatchError) :
    Quietly (σ := σ) R (MonadExcept.throw e) (MonadExcept.throw e) :=
  fun _ _ _ halike => ⟨rfl, halike, rfl⟩

/-- The same turn for each of two crews that are alike is quiet throughout. -/
theorem forM {f : Session → Run σ PUnit} {g : Session → Run (σ × List (Option Double)) PUnit}
    (hfg : ∀ x y, Session.Like x y → Quietly Eq (f x) (g y)) {xs ys : List Session}
    (h : List.Forall₂ Session.Like xs ys) : Quietly Eq (xs.forM f) (ys.forM g) := by
  induction h with
  | nil => exact pure rfl
  | cons hxy _ ih => exact (hfg _ _ hxy).bind fun _ _ _ => ih

/-- Events are done alike, unless they are waits. -/
theorem emit {e : Event} (he : e.patience? = none) :
    Quietly (σ := σ) Eq (Run.emit e) (Run.emit e) := by
  intro s q times h
  refine ⟨rfl, ⟨h.surroundings, h.queue, h.reports, h.sessions, ?_⟩, ?_⟩
  · simp only [emit_apply, List.filterMap_append, h.deeds]
  · simp [timesAsked, he]

/-- Printing a line asks for no wait. -/
theorem print (line : String) : Quietly (σ := σ) Eq (Run.print line) (Run.print line) := emit rfl

/-- Updating a session asks for no wait. -/
theorem update (number : Nat) {f : Session → Session}
    (hf : ∀ x y, Session.Like x y → Session.Like (f x) (f y)) :
    Quietly (σ := σ) Eq (Run.update number f) (Run.update number f) :=
  fun _ _ _ h =>
    ⟨rfl, ⟨h.surroundings, h.queue, h.reports,
      Session.Like.change hf h.sessions number, h.deeds⟩, rfl⟩

/-- Merging a report asks for no wait. -/
theorem report (data : Report) :
    Quietly (σ := σ) Eq (modify fun s => { s with reports := s.reports ++ [data] })
      (modify fun s => { s with reports := s.reports ++ [data] }) :=
  fun _ _ _ h =>
    ⟨rfl, ⟨h.surroundings, h.queue, congrArg (· ++ [data]) h.reports, h.sessions, h.deeds⟩, rfl⟩

/-- Enrolling a worker asks for no wait. -/
theorem enroll (number : Nat) :
    Quietly (σ := σ) Eq
      (modify fun s => { s with sessions := s.sessions ++ [Session.ofNumber number] })
      (modify fun s => { s with sessions := s.sessions ++ [Session.ofNumber number] }) :=
  fun _ _ _ h => ⟨rfl, ⟨h.surroundings, h.queue, h.reports,
    List.rel_append h.sessions (.cons ⟨rfl, rfl, rfl⟩ .nil), h.deeds⟩, rfl⟩

/-- Taking the next batch asks for no wait. -/
theorem popBatch : Quietly (σ := σ) Eq (Run.popBatch o) (Run.popBatch o) := by
  intro s q times h
  rw [popBatch_apply, popBatch_apply, h.queue]
  split_ifs
  · exact ⟨rfl, h, rfl⟩
  · exact ⟨rfl, ⟨h.surroundings, rfl, h.reports, h.sessions, h.deeds⟩, rfl⟩

/-- Reading the clock asks for no wait. -/
theorem now : Quietly Eq (Run.now w) (Run.now w.retimed) := by
  intro s q times h
  refine ⟨?_, h, rfl⟩
  have hnow : w.retimed.now q.surroundings = w.now s.surroundings := by
    rw [h.surroundings]
    rfl
  exact hnow.symm

/-- Spawning a worker asks for no wait. -/
theorem spawn (number : Nat) : Quietly Eq (Run.spawn w number) (Run.spawn w.retimed number) := by
  intro s q times h
  have hspawn : w.retimed.spawn q.surroundings number =
      (((w.spawn s.surroundings number).1, times), (w.spawn s.surroundings number).2) := by
    rw [h.surroundings]
    rfl
  rw [spawn_apply, spawn_apply, hspawn]
  refine ⟨?_, ⟨rfl, h.queue, h.reports, h.sessions, ?_⟩, ?_⟩
  · rcases (w.spawn s.surroundings number).2 with _ | reason <;> rfl
  · simp only [List.filterMap_append, h.deeds]
  · simp [timesAsked, Event.patience?]

/-- Sending a message asks for no wait. -/
theorem send (number : Nat) (m : Message) :
    Quietly Eq (Run.send w number m) (Run.send w.retimed number m) := by
  intro s q times h
  have hsend : w.retimed.send q.surroundings number m =
      (((w.send s.surroundings number m).1, times), (w.send s.surroundings number m).2) := by
    rw [h.surroundings]
    rfl
  rw [send_apply, send_apply, hsend]
  refine ⟨?_, ⟨rfl, h.queue, h.reports, h.sessions, ?_⟩, ?_⟩
  · rcases (w.send s.surroundings number m).2 with _ | cause <;> rfl
  · simp only [List.filterMap_append, h.deeds]
  · simp [timesAsked, Event.patience?]

/-- Receiving a message asks for no wait. -/
theorem receive (number : Nat) :
    Quietly Eq (Run.receive w number) (Run.receive w.retimed number) := by
  intro s q times h
  have hreceive : w.retimed.receive q.surroundings number =
      (((w.receive s.surroundings number).1, times), (w.receive s.surroundings number).2) := by
    rw [h.surroundings]
    rfl
  rw [receive_apply, receive_apply, hreceive]
  refine ⟨?_, ⟨rfl, h.queue, h.reports, h.sessions, ?_⟩, ?_⟩
  · rcases (w.receive s.surroundings number).2 with cause | m <;> rfl
  · simp only [List.filterMap_append, h.deeds]
  · simp [timesAsked, Event.patience?]

/-- Terminating a worker asks for no wait. -/
theorem terminate (number : Nat) :
    Quietly Eq (Run.terminate w number) (Run.terminate w.retimed number) := by
  intro s q times h
  rw [terminate_apply, terminate_apply]
  refine ⟨rfl, ⟨?_, h.queue, h.reports, ?_, ?_⟩, ?_⟩
  · rw [h.surroundings]
    rfl
  · exact Session.Like.change (f := ended) (fun _ _ hxy => ⟨hxy.number, rfl, hxy.batch⟩)
      h.sessions number
  · simp only [List.filterMap_append, h.deeds]
  · simp [timesAsked, Event.patience?]

/-- Sending a batch asks for no wait. -/
theorem sendBatch (number : Nat) (batch : List String) :
    Quietly Eq (Run.sendBatch w o number batch) (Run.sendBatch w.retimed o number batch) := by
  refine (print _).bind fun _ _ _ => (send number _).bind fun _ _ _ => now.bind fun _ _ htime => ?_
  subst htime
  exact update number fun _ _ hxy => ⟨hxy.number, rfl, rfl⟩

/-- Spawning the whole crew asks for no wait. -/
theorem spawnAll (numbers : List Nat) :
    Quietly Eq (Run.spawnAll w o numbers) (Run.spawnAll w.retimed o numbers) := by
  induction numbers with
  | nil => exact pure rfl
  | cons number rest ih =>
    refine popBatch.bind fun batch _ hbatch => ?_
    subst hbatch
    cases batch with
    | none => exact pure rfl
    | some batch =>
      exact (spawn number).bind fun _ _ _ => (enroll number).bind fun _ _ _ =>
        (sendBatch number batch).bind fun _ _ _ => ih

/-- The start of a dispatch asks for no wait. -/
theorem start : Quietly Eq (Run.start w o) (Run.start w.retimed o) := by
  intro s q times h
  have hfiles : q.queue.length = s.queue.length := congrArg List.length h.queue
  simp only [Run.start, bind_apply, get_apply, hfiles]
  by_cases hb : o.batchSize = 0
  · simp only [hb, ↓reduceIte]
    exact ⟨rfl, h, rfl⟩
  · simp only [hb, ↓reduceIte]
    have hrest := (print (σ := σ) ("Spawning " ++ toString (workerCount o s.queue.length) ++
      " workers to process " ++ toString s.queue.length ++ " files")).bind fun _ _ _ =>
        spawnAll (w := w) (o := o) (workerNumbers o s.queue.length)
    exact hrest s q times h

/-- Giving a worker its next batch asks for no wait. -/
theorem advance (number : Nat) :
    Quietly Eq (Run.advance w o number) (Run.advance w.retimed o number) := by
  refine (update number (f := fun s => { s with batch := none, state := .idle })
    fun _ _ hxy => ⟨hxy.number, rfl, rfl⟩).bind fun _ _ _ =>
      popBatch.bind fun batch _ hbatch => ?_
  subst hbatch
  cases batch with
  | some batch => exact sendBatch number batch
  | none =>
    exact (send number _).bind fun _ _ _ =>
      update number (f := fun s => { s with state := .awaitingReport })
        fun _ _ hxy => ⟨hxy.number, rfl, hxy.batch⟩

/-- What is done about a message does not depend on the deadline. -/
theorem handle {x y : Session} (h : Session.Like x y) (m : Option Message) :
    Quietly Eq (Run.handle w o x m) (Run.handle w.retimed o y m) := by
  obtain ⟨number, state, batch, deadline⟩ := x
  obtain ⟨number', state', batch', deadline'⟩ := y
  obtain ⟨hnumber, hstate, -⟩ := h
  simp only at hnumber hstate
  subst hnumber hstate
  refine (update number (f := calm) fun _ _ hxy =>
    ⟨hxy.number, hxy.state, hxy.batch⟩).bind fun _ _ _ => ?_
  cases state <;> rcases m with _ | _ | _ | _ | _ <;>
    first
      | exact throw _
      | exact advance _
      | exact (report _).bind fun _ _ _ => terminate _

/-- Attending to a session that is ready asks for no wait. -/
theorem attend {x y : Session} (h : Session.Like x y) :
    Quietly Eq (Run.attend w o x) (Run.attend w.retimed o y) := by
  rw [Run.attend, Run.attend, ← h.number]
  refine (receive x.number).bind fun m _ hm => ?_
  subst hm
  exact handle h m

end Run.Quietly

/-! ## Steps that wait -/

/-- **Steps that do the same** in a run and in a quiet run, where the waits of
the quiet run last as long as those of the run. -/
def Run.Retimed {α : Type} (x : Run σ α) (y : Run (σ × List (Option Double)) α) : Prop :=
  ∀ s, ∃ times, timesAsked (x s).2.events = timesAsked s.events ++ times ∧
    ∀ q rest, Alike s q (times ++ rest) → Agree Eq (x s).1 (y q).1 ∧ Alike (x s).2 (y q).2 rest

namespace Run

variable {α β : Type} {w : Surroundings σ} {o : Settings}

/-- Such steps do not wait. -/
theorem Quietly.asked {R : α → β → Prop} {x : Run σ α} {y : Run (σ × List (Option Double)) β}
    (h : Quietly R x y) (s : RunState σ) : timesAsked (x s).2.events = timesAsked s.events :=
  (h s _ [] (Alike.of_state s [])).2.2

/-- What is quiet differs in the recorded times only. -/
theorem Quietly.retimed {x : Run σ α} {y : Run (σ × List (Option Double)) α} (h : Quietly Eq x y) :
    Retimed x y := by
  intro s
  refine ⟨[], ?_, fun q rest halike => ?_⟩
  · rw [List.append_nil, h.asked]
  · obtain ⟨hagree, halike', -⟩ := h s q rest halike
    exact ⟨hagree, halike'⟩

/-- Steps that differ in the recorded times only do so one after the other. -/
theorem Retimed.bind {x : Run σ α} {y : Run (σ × List (Option Double)) α} {g : α → Run σ β}
    {g' : α → Run (σ × List (Option Double)) β} (hx : Retimed x y)
    (hg : ∀ a, Retimed (g a) (g' a)) : Retimed (x >>= g) (y >>= g') := by
  intro s
  obtain ⟨times, hasked, hsame⟩ := hx s
  rw [bind_apply]
  rcases hxs : x s with ⟨e | a, s'⟩
  · refine ⟨times, by rw [← hasked, hxs], fun q rest h => ?_⟩
    have hboth := hsame q rest h
    rw [bind_apply]
    rcases hyq : y q with ⟨e' | b, q'⟩ <;> rw [hxs, hyq] at hboth
    · exact hboth
    · exact False.elim hboth.1
  · obtain ⟨times', hasked', hsame'⟩ := hg a s'
    rw [hxs] at hasked
    refine ⟨times ++ times', ?_, fun q rest h => ?_⟩
    · rw [hasked', hasked, List.append_assoc]
    · rw [List.append_assoc] at h
      have hboth := hsame q (times' ++ rest) h
      rw [bind_apply]
      rcases hyq : y q with ⟨e' | b, q'⟩ <;> rw [hxs, hyq] at hboth
      · exact False.elim hboth.1
      · obtain ⟨hab, halike⟩ := hboth
        obtain rfl : a = b := hab
        exact hsame' q' rest halike

/-! ### Rounds, computed -/

section
variable (w : Surroundings σ) (o : Settings) {s : RunState σ} {live : List Session} {u : σ}
  {t : Option Double} {ready : List Nat}

/-- Where nobody is left, a round does nothing. -/
theorem round_of_nobody (h : s.sessions.filter (·.isLive) = []) : round w o s = (.ok false, s) := by
  simp only [round, Run.live, bind_apply, get_apply, pure_apply, h, List.isEmpty_nil, ↓reduceIte]

/-- A round without a live session is the last one. -/
theorem quietRound_of_nobody (h : s.sessions.filter (·.isLive) = []) :
    quietRound w o s = (.ok false, s) := by
  simp only [quietRound, Run.live, bind_apply, get_apply, pure_apply, h, List.isEmpty_nil,
    ↓reduceIte]

/-- Nobody can wait that long. -/
theorem round_of_tooFar (hlive : s.sessions.filter (·.isLive) = live) (hne : live ≠ [])
    (ht : patience w live s.surroundings = t)
    (hwait : w.wait s.surroundings (live.map (·.number)) t = (u, none)) :
    round w o s = (.error .deadlineTooFar,
      { s with surroundings := u, events := s.events ++ [.waited (live.map (·.number)) t] }) := by
  have hempty : live.isEmpty = false := List.isEmpty_eq_false_iff.2 hne
  simp only [round, Run.live, bind_apply, get_apply, pure_apply, hlive, hempty,
    Bool.false_eq_true, ↓reduceIte, timeout_apply, ht, wait_apply, hwait]

/-- A deadline beyond what the wait can take ends the dispatch. -/
theorem quietRound_of_tooFar (hlive : s.sessions.filter (·.isLive) = live) (hne : live ≠ [])
    (hwait : w.wait s.surroundings (live.map (·.number)) none = (u, none)) :
    quietRound w o s = (.error .deadlineTooFar,
      { s with surroundings := u, events := s.events ++
        [.waited (live.map (·.number)) none] }) := by
  have hempty : live.isEmpty = false := List.isEmpty_eq_false_iff.2 hne
  simp only [quietRound, Run.live, bind_apply, get_apply, pure_apply, hlive, hempty,
    Bool.false_eq_true, ↓reduceIte, wait_apply, hwait]

/-- **A round**: one wait, what is printed after it, and then those who are
ready. -/
theorem round_of_ready (hlive : s.sessions.filter (·.isLive) = live) (hne : live ≠ [])
    (ht : patience w live s.surroundings = t)
    (hwait : w.wait s.surroundings (live.map (·.number)) t = (u, some ready))
    {stalled : List Session} (hstalled : (live.filter fun x => !ready.contains x.number).filter
      (isStalled (w.now u)) = stalled) :
    round w o s = ((do
      (live.filter fun x => ready.contains x.number).forM (attend w o)
      return true) : Run σ Bool)
        { s with
          surroundings := u
          sessions := calmAll stalled s.sessions
          events := s.events ++ .waited (live.map (·.number)) t ::
            (stalled.flatMap (stallReport o)).map .printed } := by
  have hempty : live.isEmpty = false := List.isEmpty_eq_false_iff.2 hne
  simp only [round_eq, awaitReady, Run.live, bind_apply, get_apply, pure_apply, hlive, hempty,
    Bool.false_eq_true, ↓reduceIte, timeout_apply, ht, wait_apply, hwait, reportStalls, now,
    reportAll_apply, hstalled, List.append_assoc, List.cons_append, List.nil_append]

/-- A quiet round: one wait, and then those who are ready. -/
theorem quietRound_of_ready (hlive : s.sessions.filter (·.isLive) = live) (hne : live ≠ [])
    (hwait : w.wait s.surroundings (live.map (·.number)) none = (u, some ready)) :
    quietRound w o s = ((do
      (live.filter fun x => ready.contains x.number).forM (attend w o)
      return true) : Run σ Bool)
        { s with surroundings := u, events := s.events ++
          [.waited (live.map (·.number)) none] } := by
  have hempty : live.isEmpty = false := List.isEmpty_eq_false_iff.2 hne
  simp only [quietRound, Run.live, bind_apply, get_apply, pure_apply, hlive, hempty,
    Bool.false_eq_true, ↓reduceIte, wait_apply, hwait]

end

/-! ### Rounds, compared -/

/-- Reporting a batch takes nothing but a deadline. -/
theorem like_calmAll (stalled : List Session) {xs ys : List Session}
    (h : List.Forall₂ Session.Like xs ys) : List.Forall₂ Session.Like (calmAll stalled xs) ys := by
  induction h with
  | nil => exact .nil
  | @cons x y xs ys hxy _ ih =>
    refine .cons ?_ ih
    change Session.Like (if x.number ∈ stalled.map (·.number) then x.calm else x) y
    split_ifs
    · exact ⟨hxy.number, hxy.state, hxy.batch⟩
    · exact hxy

/-- What is printed is neither a deed nor a wait. -/
theorem filterMap_printed {α : Type} {f : Event → Option α} (hf : ∀ line, f (.printed line) = none)
    (lines : List String) : (lines.map Event.printed).filterMap f = [] := by
  rw [List.filterMap_map, List.filterMap_eq_nil_iff]
  exact fun line _ => hf line

/-- Those who are ready are dealt with alike. -/
theorem quietly_attend {xs ys : List Session} (h : List.Forall₂ Session.Like xs ys) :
    Quietly Eq (do xs.forM (attend w o); return true : Run σ Bool)
      (do ys.forM (attend w.retimed o); return true) :=
  (Quietly.forM (fun _ _ hxy => Quietly.attend hxy) h).bind fun _ _ _ => Quietly.pure rfl

/-- **A round does what a quiet round does**, which waits as long. -/
theorem retimed_round : Retimed (round w o) (quietRound w.retimed o) := by
  intro s
  generalize hlive : s.sessions.filter (·.isLive) = live
  by_cases hne : live = []
  · subst hne
    refine ⟨[], ?_, fun q rest h => ?_⟩
    · rw [round_of_nobody w o hlive, List.append_nil]
    · have hnobody : q.sessions.filter (·.isLive) = [] :=
        List.forall₂_nil_left_iff.1 (hlive ▸ Session.Like.live h.sessions)
      rw [round_of_nobody w o hlive, quietRound_of_nobody w.retimed o hnobody]
      exact ⟨rfl, h⟩
  generalize ht : patience w live s.surroundings = t
  -- the quiet run waits for the same workers and gets the same answer
  have hquiet : ∀ q rest, Alike s q ([t] ++ rest) → ∃ live', q.sessions.filter (·.isLive) = live' ∧
      live' ≠ [] ∧ List.Forall₂ Session.Like live live' ∧
      w.retimed.wait q.surroundings (live'.map (·.number)) none =
        (((w.wait s.surroundings (live.map (·.number)) t).1, rest),
          (w.wait s.surroundings (live.map (·.number)) t).2) := by
    intro q rest h
    have hlike := Session.Like.live h.sessions
    rw [hlive] at hlike
    refine ⟨_, rfl, fun hnil => hne (List.forall₂_nil_right_iff.1 (hnil ▸ hlike)), hlike, ?_⟩
    rw [Session.Like.numbers hlike, h.surroundings]
    rfl
  rcases hwait : w.wait s.surroundings (live.map (·.number)) t with ⟨u, _ | ready⟩
  · refine ⟨[t], ?_, fun q rest h => ?_⟩
    · rw [round_of_tooFar w o hlive hne ht hwait]
      exact List.filterMap_append
    · obtain ⟨live', hlive', hne', hlike, hwait'⟩ := hquiet q rest h
      rw [hwait] at hwait'
      rw [round_of_tooFar w o hlive hne ht hwait,
        quietRound_of_tooFar w.retimed o hlive' hne' hwait']
      refine ⟨rfl, rfl, h.queue, h.reports, h.sessions, ?_⟩
      simp [h.deeds, Event.deed?, Session.Like.numbers hlike]
  · have hround := round_of_ready w o hlive hne ht hwait rfl
    refine ⟨[t], ?_, fun q rest h => ?_⟩
    · rw [hround, (quietly_attend (List.forall₂_same.2 fun x _ => .refl x)).asked, timesAsked,
        List.filterMap_append, List.filterMap_cons_some (f := Event.patience?) (b := t) rfl,
        filterMap_printed fun _ => rfl]
      rfl
    · obtain ⟨live', hlive', hne', hlike, hwait'⟩ := hquiet q rest h
      rw [hwait] at hwait'
      rw [hround, quietRound_of_ready w.retimed o hlive' hne' hwait']
      generalize (live.filter fun x => !ready.contains x.number).filter (isStalled (w.now u)) =
        stalled
      have hdeeds : (q.events ++ [Event.waited (live'.map (·.number)) none]).filterMap Event.deed? =
          (s.events ++ Event.waited (live.map (·.number)) t ::
            (stalled.flatMap (stallReport o)).map Event.printed).filterMap Event.deed? := by
        have hwaited : (Event.waited (live.map (·.number)) t).deed? =
            some (Event.waited (live.map (·.number)) none) := rfl
        rw [List.filterMap_append, List.filterMap_append, h.deeds, Session.Like.numbers hlike,
          List.filterMap_cons_some hwaited, filterMap_printed fun _ => rfl]
        rfl
      have hafter := quietly_attend (w := w) (o := o) (Session.Like.ready hlike ready) _ _ rest
        (Alike.mk (s := { s with
            surroundings := u
            sessions := calmAll stalled s.sessions
            events := s.events ++ .waited (live.map (·.number)) t ::
              (stalled.flatMap (stallReport o)).map .printed })
          (q := { q with
            surroundings := (u, rest)
            events := q.events ++ [.waited (live'.map (·.number)) none] })
          rfl h.queue h.reports (like_calmAll _ h.sessions) hdeeds)
      exact ⟨hafter.1, hafter.2.1⟩

/-- **Any number of rounds differ from the quiet ones in the recorded times only.** -/
theorem retimed_rounds (n : Nat) : Retimed (rounds w o n) (quietRounds w.retimed o n) := by
  induction n with
  | zero => exact (Quietly.pure rfl).retimed
  | succ n ih =>
    refine retimed_round.bind fun goesOn => ?_
    cases goesOn with
    | true => exact ih
    | false => exact (Quietly.pure rfl).retimed

end Run

/-! ## Whole runs -/

variable (w : Surroundings σ) (o : Settings)

/-- Shutting down keeps the two runs alike and asks for no wait. -/
theorem alike_shutDown {s : RunState σ} {q : RunState (σ × List (Option Double))}
    {times : List (Option Double)} (h : Alike s q times) :
    Alike (s.shutDown w) (q.shutDown w.retimed) times ∧
      timesAsked (s.shutDown w).events = timesAsked s.events := by
  have hall : Run.Quietly Eq
      ((s.sessions.filter (·.isLive)).forM fun x => Run.terminate w x.number)
      ((q.sessions.filter (·.isLive)).forM fun x => Run.terminate w.retimed x.number) :=
    Run.Quietly.forM (fun x y hxy => hxy.number ▸ Run.Quietly.terminate x.number)
      (Session.Like.live h.sessions)
  exact (hall s q times h).2

/-- **A run does what the quiet run does** whose waits last as long: it ends in
the same way, has the same reports, and does the same to the same workers in
the same order. -/
theorem quietRun_alike (n : Nat) (u : σ) (files : List String) {times : List (Option Double)}
    (htimes : timesAsked ((RunState.ofFiles u files).run w o n).2.events = times) :
    ((RunState.ofFiles (u, times) files).quietRun w.retimed o n).1 =
        ((RunState.ofFiles u files).run w o n).1 ∧
      Alike ((RunState.ofFiles u files).run w o n).2
        ((RunState.ofFiles (u, times) files).quietRun w.retimed o n).2 [] := by
  have hrun : Run.Retimed (do Run.start w o; Run.rounds w o n)
      (do Run.start w.retimed o; Run.quietRounds w.retimed o n) :=
    (Run.Quietly.start (w := w) (o := o)).retimed.bind fun _ => Run.retimed_rounds n
  obtain ⟨asked, hasked, hsame⟩ := hrun (RunState.ofFiles u files)
  have hboth := hsame (RunState.ofFiles (u, asked) files) []
    ((List.append_nil asked).symm ▸ Alike.of_state (RunState.ofFiles u files) asked)
  rcases hs : (do Run.start w o; Run.rounds w o n : Run σ Bool) (RunState.ofFiles u files) with
    ⟨e | finished, s⟩ <;> rw [hs] at hboth hasked
  · rcases hq : (do Run.start w.retimed o; Run.quietRounds w.retimed o n :
      Run (σ × List (Option Double)) Bool) (RunState.ofFiles (u, asked) files) with
      ⟨e' | finished', q⟩ <;> rw [hq] at hboth
    · obtain ⟨hagree, halike⟩ := hboth
      obtain rfl : e = e' := hagree
      obtain ⟨halike', hunasked⟩ := alike_shutDown w halike
      have htimes : times = asked := by
        rw [← htimes, RunState.run, hs]
        exact hunasked.trans hasked
      subst htimes
      rw [RunState.run, RunState.quietRun, hs, hq]
      exact ⟨rfl, halike'⟩
    · exact False.elim hboth.1
  · rcases hq : (do Run.start w.retimed o; Run.quietRounds w.retimed o n :
      Run (σ × List (Option Double)) Bool) (RunState.ofFiles (u, asked) files) with
      ⟨e' | finished', q⟩ <;> rw [hq] at hboth
    · exact False.elim hboth.1
    · obtain ⟨hagree, halike⟩ := hboth
      obtain rfl : finished = finished' := hagree
      obtain ⟨halike', hunasked⟩ := alike_shutDown w halike
      have htimes : times = asked := by
        rw [← htimes, RunState.run, hs]
        cases finished with
        | true => exact hunasked.trans hasked
        | false => exact hasked
      subst htimes
      rw [RunState.run, RunState.quietRun, hs, hq]
      cases finished with
      | true => exact ⟨rfl, halike'⟩
      | false => exact ⟨rfl, halike⟩

end Retype.Dispatch
