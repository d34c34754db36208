import Mathlib.Logic.Relation
import Retype.Dispatch.Orchestrator
/-!
# The orchestrator — one action at a time

A run as a machine: `Moment.next` does the next action of the primary,
which is to spawn a worker with its first batch, to wait, to deal with one
worker that has something to say, or to end one worker. `Reaches` is any
number of such actions. What is stated of every reachable moment
is stated of every moment of a run between two actions, and
`reaches_run` says that a run passes through these moments and
no others: it ends where the machine ends.
-/

namespace Retype.Dispatch

variable {σ : Type}

/-- Where a run stands between two actions. -/
inductive Phase where
  /-- The workers with these numbers are still to be spawned. -/
  | spawning (numbers : List Nat)
  | waiting
  /-- These sessions have something to say that nobody has dealt with. -/
  | handling (ready : List Session)
  /-- The run is over, but these sessions have not been ended. -/
  | closing (result : Except DispatchError Unit) (left : List Session)
  | concluded (result : Except DispatchError Unit)

/-- A run between two actions. -/
structure Moment (σ : Type) where
  phase : Phase
  state : RunState σ

/-! ## Computing a step of a run

A step is a function of the state; these equations run it. -/

namespace Run

variable {α β : Type}

/-- A value returned leaves the state. -/
@[simp] theorem pure_apply (a : α) (s : RunState σ) : (pure a : Run σ α) s = (.ok a, s) := rfl

/-- So does a failure. -/
@[simp] theorem throw_apply (e : DispatchError) (s : RunState σ) :
    (throw e : Run σ α) s = (.error e, s) := rfl

/-- Reading the state leaves it. -/
@[simp] theorem get_apply (s : RunState σ) : (get : Run σ (RunState σ)) s = (.ok s, s) := rfl

/-- Setting the state replaces it. -/
@[simp] theorem set_apply (s s' : RunState σ) : (set s' : Run σ PUnit) s = (.ok ⟨⟩, s') := rfl

/-- A change of the state is the change that is made. -/
@[simp] theorem modify_apply (f : RunState σ → RunState σ) (s : RunState σ) :
    (modify f : Run σ PUnit) s = (.ok ⟨⟩, f s) := rfl

/-- A second step starts from the state the first one left, unless that failed. -/
theorem bind_apply (x : Run σ α) (f : α → Run σ β) (s : RunState σ) :
    (x >>= f) s = match x s with
      | (.ok a, s) => f a s
      | (.error e, s) => (.error e, s) := by
  change (ExceptT.bind x f) s = _
  simp only [ExceptT.bind, ExceptT.mk, bind, StateT.bind]
  rcases x s with ⟨a | e, s'⟩ <;> rfl

/-- A list of steps is the first one and then the rest. -/
theorem forM_cons_apply (f : α → Run σ PUnit) (a : α) (as : List α) (s : RunState σ) :
    (a :: as).forM f s = (f a >>= fun _ => as.forM f) s := rfl

/-- An event is put at the end of the log. -/
@[simp] theorem emit_apply (e : Event) (s : RunState σ) :
    (emit e : Run σ Unit) s = (.ok (), { s with events := s.events ++ [e] }) := rfl

/-- A line is an event. -/
@[simp] theorem print_apply (line : String) (s : RunState σ) :
    (print line : Run σ Unit) s = (.ok (), { s with events := s.events ++ [.printed line] }) := rfl

/-! ## The actions -/

variable (w : Surroundings σ) (o : Settings)

/-- Spawns a worker with its first batch, unless there are no files left;
whether there were. -/
def spawnNext (number : Nat) : Run σ Bool := do
  match ← popBatch o with
  | none => return false
  | some batch =>
    spawn w number
    modify fun s => { s with sessions := s.sessions ++ [Session.ofNumber number] }
    sendBatch w o number batch
    return true

/-- Waits until somebody has something to say; the sessions that have, or
none if there is nobody to wait for. -/
def awaitReady : Run σ (Option (List Session)) := do
  let live ← live
  if live.isEmpty then return none
  else
    let ready ← wait w (live.map (·.number)) (← timeout w live)
    reportStalls w o (live.filter fun s => !ready.contains s.number)
    return some (live.filter fun s => ready.contains s.number)

/-- Receives what a worker has to say and deals with it. -/
def attend (x : Session) : Run σ Unit := do
  handle w o x (← receive w x.number)

/-- Spawning all workers is spawning one after the other. -/
theorem spawnAll_cons (number : Nat) (rest : List Nat) :
    spawnAll w o (number :: rest) = (do
      if ← spawnNext w o number then spawnAll w o rest else pure ()) := by
  simp only [spawnAll, spawnNext, bind_assoc]
  refine bind_congr fun batch => ?_
  cases batch with
  | none => simp
  | some batch => simp [bind_assoc]

/-- A round is to wait and to attend to those who are ready. -/
theorem round_eq :
    round w o = (do
      match ← awaitReady w o with
      | none => return false
      | some ready =>
        ready.forM (attend w o)
        return true) := by
  simp only [round, awaitReady, bind_assoc]
  refine bind_congr fun live => ?_
  by_cases h : live.isEmpty
  · simp [h]
  · simp only [h, Bool.false_eq_true, ↓reduceIte, bind_assoc, pure_bind]
    rfl

end Run

/-! ## The machine -/

namespace RunState

/-- The run ends with a result; the sessions that live are to be ended. -/
def close (s : RunState σ) (result : Except DispatchError Unit) : Moment σ :=
  ⟨.closing result (s.sessions.filter (·.isLive)), s⟩

/-- The line that begins a run. -/
def announcement (o : Settings) (files : Nat) : String :=
  "Spawning " ++ toString (Run.workerCount o files) ++ " workers to process " ++ toString files
    ++ " files"

/-- A run that has been announced. -/
def announced (o : Settings) (s : RunState σ) : RunState σ :=
  { s with events := s.events ++ [.printed (announcement o s.queue.length)] }

/-- The moment in which a run begins. -/
def opened (o : Settings) (s : RunState σ) : Moment σ :=
  if o.batchSize = 0 then s.close (.error .emptyBatches)
  else ⟨.spawning (Run.workerNumbers o s.queue.length), s.announced o⟩

end RunState

namespace Moment

variable (w : Surroundings σ) (o : Settings)

/-- The next action. -/
def next : Moment σ → Moment σ
  | ⟨.spawning [], s⟩ => ⟨.waiting, s⟩
  | ⟨.spawning (number :: rest), s⟩ =>
    match Run.spawnNext w o number s with
    | (.ok true, s) => ⟨.spawning rest, s⟩
    | (.ok false, s) => ⟨.waiting, s⟩
    | (.error e, s) => s.close (.error e)
  | ⟨.waiting, s⟩ =>
    match Run.awaitReady w o s with
    | (.ok none, s) => s.close (.ok ())
    | (.ok (some ready), s) => ⟨.handling ready, s⟩
    | (.error e, s) => s.close (.error e)
  | ⟨.handling [], s⟩ => ⟨.waiting, s⟩
  | ⟨.handling (x :: rest), s⟩ =>
    match Run.attend w o x s with
    | (.ok (), s) => ⟨.handling rest, s⟩
    | (.error e, s) => s.close (.error e)
  | ⟨.closing result [], s⟩ => ⟨.concluded result, s⟩
  | ⟨.closing result (x :: rest), s⟩ => ⟨.closing result rest, (Run.terminate w x.number s).2⟩
  | ⟨.concluded result, s⟩ => ⟨.concluded result, s⟩

/-- Any number of actions lead from one moment to another. -/
def Reaches : Moment σ → Moment σ → Prop :=
  Relation.ReflTransGen fun c c' => c.next w o = c'

variable {w o}

/-- What holds in the beginning and is kept by every action holds always. -/
theorem Reaches.invariant {P : Moment σ → Prop} {c c' : Moment σ} (h : Reaches w o c c')
    (hc : P c) (hstep : ∀ c', Reaches w o c c' → P c' → P (c'.next w o)) : P c' := by
  induction h with
  | refl => exact hc
  | tail hreaches hnext ih => exact hnext ▸ hstep _ hreaches ih

end Moment

/-- The phase at the end of a run; one that has not come to an end waits. -/
def RunEnd.phase : RunEnd → Phase
  | finished => .concluded (.ok ())
  | failed cause => .concluded (.error cause)
  | unfinished => .waiting

/-! ## A run is a path of the machine -/

section
variable {w : Surroundings σ} {o : Settings}

open Dispatch.Moment (Reaches)

/-- Spawning a crew passes through the moments of its workers. -/
theorem reaches_spawnAll (numbers : List Nat) (s : RunState σ) :
    Reaches w o ⟨.spawning numbers, s⟩
      (match Run.spawnAll w o numbers s with
        | (.ok _, s) => ⟨.waiting, s⟩
        | (.error e, s) => s.close (.error e)) := by
  induction numbers generalizing s with
  | nil => exact .single rfl
  | cons number rest ih =>
    rw [Run.spawnAll_cons, Run.bind_apply]
    have hnext : Reaches w o ⟨.spawning (number :: rest), s⟩ _ := .single rfl
    rw [Moment.next] at hnext
    rcases hs : Run.spawnNext w o number s with ⟨e | _ | _, s'⟩ <;> rw [hs] at hnext
    · exact hnext
    · exact hnext
    · exact hnext.trans (ih s')

/-- Attending to those who are ready passes through theirs. -/
theorem reaches_attend (ready : List Session) (s : RunState σ) :
    Reaches w o ⟨.handling ready, s⟩
      (match (ready.forM (Run.attend w o) : Run σ Unit) s with
        | (.ok _, s) => ⟨.waiting, s⟩
        | (.error e, s) => s.close (.error e)) := by
  induction ready generalizing s with
  | nil => exact .single rfl
  | cons x rest ih =>
    rw [Run.forM_cons_apply, Run.bind_apply]
    have hnext : Reaches w o ⟨.handling (x :: rest), s⟩ _ := .single rfl
    rw [Moment.next] at hnext
    rcases hs : Run.attend w o x s with ⟨e | _, s'⟩ <;> rw [hs] at hnext
    · exact hnext
    · exact hnext.trans (ih s')

/-- Rounds lead on to waiting, or to the end. -/
theorem reaches_rounds (n : Nat) (s : RunState σ) :
    Reaches w o ⟨.waiting, s⟩
      (match Run.rounds w o n s with
        | (.ok true, s) => s.close (.ok ())
        | (.ok false, s) => ⟨.waiting, s⟩
        | (.error e, s) => s.close (.error e)) := by
  induction n generalizing s with
  | zero => exact .refl
  | succ n ih =>
    rw [Run.rounds, Run.round_eq, Run.bind_apply, Run.bind_apply]
    have hnext : Reaches w o ⟨.waiting, s⟩ _ := .single rfl
    rw [Moment.next] at hnext
    rcases hs : Run.awaitReady w o s with ⟨e | _ | ready, s'⟩ <;> rw [hs] at hnext
    · exact hnext
    · exact hnext
    · have hattend := hnext.trans (reaches_attend ready s')
      simp only [Run.bind_apply]
      rcases hf : (ready.forM (Run.attend w o) : Run σ Unit) s' with ⟨e | _, s''⟩ <;>
        rw [hf] at hattend
      · exact hattend
      · exact hattend.trans (ih s'')

/-- Shutting down passes through an end for each session left. -/
theorem reaches_shutDown (result : Except DispatchError Unit) (left : List Session)
    (s : RunState σ) :
    Reaches w o ⟨.closing result left, s⟩
      ⟨.concluded result, ((left.forM fun x => Run.terminate w x.number : Run σ Unit) s).2⟩ := by
  induction left generalizing s with
  | nil => exact .single rfl
  | cons x rest ih =>
    rw [Run.forM_cons_apply, Run.bind_apply]
    have hnext : Reaches w o ⟨.closing result (x :: rest), s⟩ _ := .single rfl
    exact hnext.trans (ih _)

/-- From the end of the work to the end of the run. -/
theorem reaches_of_close (result : Except DispatchError Unit) (s : RunState σ) :
    Reaches w o (s.close result) ⟨.concluded result, s.shutDown w⟩ :=
  reaches_shutDown result _ s

/-- **A run is a path of the machine.** Whatever the surroundings do, a run
ends in a moment that the machine reaches from its beginning. -/
theorem reaches_run (n : Nat) (s : RunState σ) :
    Reaches w o (s.opened o) ⟨(s.run w o n).1.phase, (s.run w o n).2⟩ := by
  have hstart : (Run.start w o >>= fun _ => Run.rounds w o n : Run σ Bool) s =
      if o.batchSize = 0 then (.error .emptyBatches, s)
      else match Run.spawnAll w o (Run.workerNumbers o s.queue.length) (s.announced o) with
        | (.ok _, s) => Run.rounds w o n s
        | (.error e, s) => (.error e, s) := by
    by_cases hb : o.batchSize = 0
    · simp [Run.start, Run.bind_apply, hb]
    · simp only [Run.start, Run.bind_apply, Run.get_apply, hb, ↓reduceIte,
        Run.print_apply, RunState.announced, RunState.announcement]
      generalize Run.spawnAll w o _ _ = spawned
      rcases spawned with ⟨_ | _, _⟩ <;> rfl
  rw [RunState.run, hstart, RunState.opened]
  by_cases hb : o.batchSize = 0
  · simp only [hb, ↓reduceIte]
    exact reaches_of_close _ s
  · simp only [hb, ↓reduceIte]
    have hspawn := reaches_spawnAll (w := w) (o := o) (Run.workerNumbers o s.queue.length)
      (s.announced o)
    rcases hs : Run.spawnAll w o (Run.workerNumbers o s.queue.length) (s.announced o) with
      ⟨e | _, s'⟩ <;> rw [hs] at hspawn
    · exact hspawn.trans (reaches_of_close _ s')
    · have hrounds := hspawn.trans (reaches_rounds n s')
      simp only
      rcases hr : Run.rounds w o n s' with ⟨e | _ | _, s''⟩ <;> rw [hr] at hrounds
      · exact hrounds.trans (reaches_of_close _ s'')
      · exact hrounds
      · exact hrounds.trans (reaches_of_close _ s'')

end

end Retype.Dispatch
