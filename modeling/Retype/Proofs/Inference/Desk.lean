import Mathlib.Data.List.Induction
import Mathlib.Logic.Function.Iterate
import Retype.Inference.Queue
/-!
# The queue under the event loop

`Queue` says which call starts when. Here it stands where it runs: calls and
callers are tasks of one event loop, and what is due is run job by job, the
oldest first. A call that starts is a task whose first step is due; a call that
ends leaves its completion due; a caller who is told its answer, or is
cancelled, has its own next step due. Between two jobs anything may happen from
outside: another query, the end of the call in flight, a caller cancelled, a
parse returning.

Queries are numbered in the order in which they are put, and the number stands
for the caller. The log keeps what happened, in order, and every statement about
the desk is read off it.
-/

namespace Retype.Inference

/-- How the task of a call ended, with the error that broke it. -/
inductive Ending (ε : Type) where
  | answered (output : String)
  | unavailable
  | broke (error : ε)
  | cancelled
  deriving DecidableEq, Repr

/-- The ending as the queue knows it, its error left out. -/
def Ending.callEnd {ε : Type} : Ending ε → CallEnd
  | answered output => .answered output
  | unavailable => .unavailable
  | broke _ => .broke
  | cancelled => .cancelled

/-- How the parse of an answer returned. -/
inductive ParseEnd (ε : Type) where
  | type (node : Json)
  /-- The bridge could not parse the text. -/
  | refused
  | broke (error : ε)
  | cancelled

/-- What a caller comes back with. -/
inductive Reply (ε : Type) where
  | type (node : Option Json)
  | raised (error : ε)
  | cancelled

/-- What a parse gives the caller. -/
def ParseEnd.reply {ε : Type} : ParseEnd ε → Reply ε
  | type node => .type (some node)
  | refused => .type none
  | broke error => .raised error
  | cancelled => .cancelled

/-- What a caller comes back with where nothing is parsed. -/
def Ending.reply {ε : Type} : Ending ε → Reply ε
  | answered _ | unavailable => .type none
  | broke error => .raised error
  | cancelled => .cancelled

/-- Where a call is. -/
inductive CallStage (ε : Type) where
  | queued
  /-- Its task exists and has not run yet. -/
  | created
  /-- Cancelled before its first step. -/
  | givenUp
  | running
  /-- Its task is done and the queue has not been told. -/
  | ended (e : Ending ε)
  | closed (e : Ending ε)
  deriving DecidableEq, Repr

namespace CallStage

variable {ε : Type}

/-- Started and not ended. -/
def inFlight : CallStage ε → Bool
  | created | givenUp | running => true
  | _ => false

/-- The queue holds it as the active one. -/
def inHand : CallStage ε → Bool
  | created | givenUp | running | ended _ => true
  | _ => false

def ending : CallStage ε → Option (Ending ε)
  | ended e | closed e => some e
  | _ => none

/-- Its first step is due. -/
def unrun : CallStage ε → Bool
  | created | givenUp => true
  | _ => false

end CallStage

/-- Where a caller is. -/
inductive CallerStage (ε : Type) where
  | absent
  | waiting
  /-- The call's ending is at hand and its next step is due. -/
  | told (e : Ending ε)
  | parsing
  /-- Cancelled, and its next step is due. -/
  | leaving
  | gone

/-- The next step of the caller is due. -/
def CallerStage.woken {ε : Type} : CallerStage ε → Bool
  | told _ | leaving => true
  | _ => false

/-- What the event loop runs in one go. -/
inductive Job where
  /-- The first step of a call. -/
  | run (e : Entry Nat)
  /-- The completion of a call. -/
  | finish (k : Nat)
  /-- The next step of a caller. -/
  | wake (k : Nat)

/-- What is done with the answer for a caller. -/
inductive Notice (ε : Type) where
  | parse (text : String)
  | done (reply : Reply ε)

/-- What is written to the log. -/
inductive Event (ε : Type) where
  | put (e : Entry Nat)
  | start (e : Entry Nat)
  | ask (e : Entry Nat)
  | ended (k : Nat) (e : Ending ε)
  | heard (k : Nat) (n : Notice ε)
  | parsed (k : Nat) (p : ParseEnd ε)
  /-- The caller was cancelled. -/
  | left (k : Nat)
  /-- The cancelled caller's task is done. -/
  | gone (k : Nat)

/-- The queue with its callers, and the jobs that are due. -/
structure Desk (ε : Type) where
  count : Nat
  queue : Queue Nat
  call : Nat → CallStage ε
  caller : Nat → CallerStage ε
  ready : List Job
  log : List (Event ε)

/-- What happens at the desk. -/
inductive Happening (ε : Type) where
  | put (q : Query)
  | callEnds (k : Nat) (e : Ending ε)
  | cancel (k : Nat)
  | parseEnds (k : Nat) (p : ParseEnd ε)
  /-- The event loop runs the oldest job. -/
  | turn

/-- The query that is put, if one is. -/
def Happening.query? {ε : Type} : Happening ε → Option Query
  | put q => some q
  | _ => none

namespace Desk

variable {ε : Type}

def empty : Desk ε := ⟨0, .empty, fun _ => .queued, fun _ => .absent, [], []⟩

/-- The task of the call that the queue starts. -/
def launch (s : Desk ε) : Option (Entry Nat) → Desk ε
  | none => s
  | some e =>
    { s with
      call := Function.update s.call e.caller .created
      ready := s.ready ++ [.run e]
      log := s.log ++ [.start e] }

/-- A query is put, and its caller waits. -/
def put (s : Desk ε) (q : Query) : Desk ε :=
  let e : Entry Nat := ⟨s.count, q⟩
  let next := s.queue.submit e
  ({ s with
    count := s.count + 1
    queue := next.1
    caller := Function.update s.caller s.count .waiting
    log := s.log ++ [.put e] } : Desk ε).launch next.2

/-- The task of a call ends. One that has not run yet can only be cancelled,
which shows at its first step. -/
def callEnds (s : Desk ε) (k : Nat) (e : Ending ε) : Desk ε :=
  match s.call k, e with
  | .running, e =>
    { s with
      call := Function.update s.call k (.ended e)
      ready := s.ready ++ [.finish k]
      log := s.log ++ [.ended k e] }
  | .created, .cancelled => { s with call := Function.update s.call k .givenUp }
  | _, _ => s

/-- A caller is cancelled. If it has been told its answer, its step is due
already. -/
def cancel (s : Desk ε) (k : Nat) : Desk ε :=
  match s.caller k with
  | .waiting | .parsing =>
    { s with
      caller := Function.update s.caller k .leaving
      ready := s.ready ++ [.wake k]
      log := s.log ++ [.left k] }
  | .told _ =>
    { s with
      caller := Function.update s.caller k .leaving
      log := s.log ++ [.left k] }
  | _ => s

/-- The parse of an answer returns, and the caller with it. -/
def parseEnds (s : Desk ε) (k : Nat) (p : ParseEnd ε) : Desk ε :=
  match s.caller k with
  | .parsing =>
    { s with
      caller := Function.update s.caller k .gone
      log := s.log ++ [.parsed k p, .heard k (.done p.reply)] }
  | _ => s

/-- The first step of a call. -/
def runCall (s : Desk ε) (e : Entry Nat) : Desk ε :=
  match s.call e.caller with
  | .created =>
    { s with
      call := Function.update s.call e.caller .running
      log := s.log ++ [.ask e] }
  | .givenUp =>
    { s with
      call := Function.update s.call e.caller (.ended .cancelled)
      ready := s.ready ++ [.finish e.caller]
      log := s.log ++ [.ended e.caller .cancelled] }
  | _ => s

/-- A caller that waits is told how its call ended. -/
def tell (s : Desk ε) (k : Nat) (e : Ending ε) : Desk ε :=
  match s.caller k with
  | .waiting =>
    { s with
      caller := Function.update s.caller k (.told e)
      ready := s.ready ++ [.wake k] }
  | _ => s

/-- The completion of a call: the next one starts, then the caller is told. -/
def finish (s : Desk ε) (k : Nat) : Desk ε :=
  match s.call k with
  | .ended e =>
    let next := s.queue.finish
    ({ s with
      queue := next.1
      call := Function.update s.call k (.closed e) }.launch next.2).tell k e
  | _ => s

/-- The next step of a caller: the answer is parsed or handed over, or the
cancellation takes effect. -/
def wake (maxLength : Int) (s : Desk ε) (k : Nat) : Desk ε :=
  match s.caller k with
  | .told e =>
    match textToParse maxLength e.callEnd with
    | some text =>
      { s with
        caller := Function.update s.caller k .parsing
        log := s.log ++ [.heard k (.parse text)] }
    | none =>
      { s with
        caller := Function.update s.caller k .gone
        log := s.log ++ [.heard k (.done e.reply)] }
  | .leaving =>
    { s with
      caller := Function.update s.caller k .gone
      log := s.log ++ [.gone k] }
  | _ => s

/-- One job is run. -/
def perform (maxLength : Int) (s : Desk ε) : Job → Desk ε
  | .run e => s.runCall e
  | .finish k => s.finish k
  | .wake k => s.wake maxLength k

/-- The oldest job is run. -/
def turn (maxLength : Int) (s : Desk ε) : Desk ε :=
  match s.ready with
  | [] => s
  | job :: rest => { s with ready := rest }.perform maxLength job

def step (maxLength : Int) (s : Desk ε) : Happening ε → Desk ε
  | .put q => s.put q
  | .callEnds k e => s.callEnds k e
  | .cancel k => s.cancel k
  | .parseEnds k p => s.parseEnds k p
  | .turn => s.turn maxLength

/-! ## What a step can do

One lemma for each operation that says all it can do. The invariants are read off
these, not off the operations. -/

section Cases

variable (s : Desk ε) (k : Nat)

theorem callEnds_cases (e : Ending ε) :
    (s.call k = .running ∧ s.callEnds k e = { s with
      call := Function.update s.call k (.ended e)
      ready := s.ready ++ [.finish k]
      log := s.log ++ [.ended k e] }) ∨
    (s.call k = .created ∧
      s.callEnds k e = { s with call := Function.update s.call k .givenUp }) ∨
    s.callEnds k e = s := by
  unfold callEnds
  split
  next hk => exact .inl ⟨hk, rfl⟩
  next hk => exact .inr (.inl ⟨hk, rfl⟩)
  next => exact .inr (.inr rfl)

theorem cancel_cases :
    ((s.caller k = .waiting ∨ s.caller k = .parsing) ∧ s.cancel k = { s with
      caller := Function.update s.caller k .leaving
      ready := s.ready ++ [.wake k]
      log := s.log ++ [.left k] }) ∨
    (∃ e, s.caller k = .told e ∧ s.cancel k = { s with
      caller := Function.update s.caller k .leaving
      log := s.log ++ [.left k] }) ∨
    s.cancel k = s := by
  unfold cancel
  split
  next hk => exact .inl ⟨.inl hk, rfl⟩
  next hk => exact .inl ⟨.inr hk, rfl⟩
  next e hk => exact .inr (.inl ⟨e, hk, rfl⟩)
  next => exact .inr (.inr rfl)

theorem parseEnds_cases (p : ParseEnd ε) :
    (s.caller k = .parsing ∧ s.parseEnds k p = { s with
      caller := Function.update s.caller k .gone
      log := s.log ++ [.parsed k p, .heard k (.done p.reply)] }) ∨
    (s.caller k ≠ .parsing ∧ s.parseEnds k p = s) := by
  unfold parseEnds
  split
  next hk => exact .inl ⟨hk, rfl⟩
  next hk => exact .inr ⟨hk, rfl⟩

theorem runCall_cases (e : Entry Nat) :
    (s.call e.caller = .created ∧ s.runCall e = { s with
      call := Function.update s.call e.caller .running
      log := s.log ++ [.ask e] }) ∨
    (s.call e.caller = .givenUp ∧ s.runCall e = { s with
      call := Function.update s.call e.caller (.ended .cancelled)
      ready := s.ready ++ [.finish e.caller]
      log := s.log ++ [.ended e.caller .cancelled] }) ∨
    ((s.call e.caller).unrun = false ∧ s.runCall e = s) := by
  unfold runCall
  cases s.call e.caller with
  | created => exact .inl ⟨rfl, rfl⟩
  | givenUp => exact .inr (.inl ⟨rfl, rfl⟩)
  | _ => exact .inr (.inr ⟨rfl, rfl⟩)

theorem tell_cases (e : Ending ε) :
    (s.caller k = .waiting ∧ s.tell k e = { s with
      caller := Function.update s.caller k (.told e)
      ready := s.ready ++ [.wake k] }) ∨
    (s.caller k ≠ .waiting ∧ s.tell k e = s) := by
  unfold tell
  split
  next hk => exact .inl ⟨hk, rfl⟩
  next hk => exact .inr ⟨hk, rfl⟩

theorem wake_cases (maxLength : Int) :
    (∃ e text, s.caller k = .told e ∧ textToParse maxLength e.callEnd = some text ∧
      s.wake maxLength k = { s with
        caller := Function.update s.caller k .parsing
        log := s.log ++ [.heard k (.parse text)] }) ∨
    (∃ e, s.caller k = .told e ∧ textToParse maxLength e.callEnd = none ∧
      s.wake maxLength k = { s with
        caller := Function.update s.caller k .gone
        log := s.log ++ [.heard k (.done e.reply)] }) ∨
    (s.caller k = .leaving ∧ s.wake maxLength k = { s with
      caller := Function.update s.caller k .gone
      log := s.log ++ [.gone k] }) ∨
    ((s.caller k).woken = false ∧ s.wake maxLength k = s) := by
  unfold wake
  cases s.caller k with
  | told e =>
    cases ht : textToParse maxLength e.callEnd with
    | some text => exact .inl ⟨e, text, rfl, ht, by simp only [ht]⟩
    | none => exact .inr (.inl ⟨e, rfl, ht, by simp only [ht]⟩)
  | leaving => exact .inr (.inr (.inl ⟨rfl, rfl⟩))
  | _ => exact .inr (.inr (.inr ⟨rfl, rfl⟩))

theorem turn_cases (maxLength : Int) :
    (s.ready = [] ∧ s.turn maxLength = s) ∨ ∃ job rest, s.ready = job :: rest ∧
      s.turn maxLength = { s with ready := rest }.perform maxLength job := by
  unfold turn
  split
  next hr => exact .inl ⟨hr, rfl⟩
  next job rest hr => exact .inr ⟨job, rest, hr, rfl⟩

end Cases

/-! ## Runs -/

/-- The desk after everything that happened, in order. -/
def run (maxLength : Int) (hs : List (Happening ε)) : Desk ε :=
  hs.foldl (step maxLength) empty

/-- What holds at first and is kept by every step holds after every run. -/
theorem run_induction {maxLength : Int} {P : Desk ε → Prop} (init : P empty)
    (step : ∀ hs h, P (run maxLength hs) → P ((run maxLength hs).step maxLength h))
    (hs : List (Happening ε)) : P (run maxLength hs) := by
  induction hs using List.reverseRecOn with
  | nil => exact init
  | append_singleton hs h ih => simpa [run] using step hs h ih

end Desk

/-! ## What the log tells

Everything is read off the log by `List.filterMap` with one of these. -/

namespace Event

variable {ε : Type}

/-- The query that is put. -/
@[simp] def put? : Event ε → Option (Entry Nat)
  | put e => some e
  | _ => none

/-- The call that starts. -/
@[simp] def start? : Event ε → Option (Entry Nat)
  | start e => some e
  | _ => none

/-- The call that reaches the checker. -/
@[simp] def ask? : Event ε → Option (Entry Nat)
  | ask e => some e
  | _ => none

/-- The number of the call that ends. -/
@[simp] def ended? : Event ε → Option Nat
  | ended k _ => some k
  | _ => none

/-- The caller that is cancelled. -/
@[simp] def left? : Event ε → Option Nat
  | left k => some k
  | _ => none

/-- How call `k` ends. -/
@[simp] def ending? (k : Nat) : Event ε → Option (Ending ε)
  | ended j e => if j = k then some e else none
  | _ => none

/-- What is done with the answer for caller `k`. -/
@[simp] def heard? (k : Nat) : Event ε → Option (Notice ε)
  | heard j n => if j = k then some n else none
  | _ => none

/-- How the parse for caller `k` returns. -/
@[simp] def parsed? (k : Nat) : Event ε → Option (ParseEnd ε)
  | parsed j p => if j = k then some p else none
  | _ => none

theorem filterMap_ended (j k : Nat) (e : Ending ε) :
    [ended j e].filterMap (ending? k) = if j = k then [e] else [] := by
  by_cases h : j = k <;> simp [h]

end Event

end Retype.Inference
