import Retype.Inference.Answer
import Retype.Inference.Command
import Retype.Json.Basic
/-! # The queue of questions

The checker is asked one question at a time, in the order in which they were
put. When a call ends the next one starts at once, before the answer is read
and handed to whoever put the question. A caller who stops waiting changes
nothing about the calls.
-/

namespace Retype.Inference

/-- A question that was put, with the key of its caller. -/
structure Entry (ι : Type) where
  caller : ι
  query : Query
  deriving Repr

/-- How a call ended. -/
inductive CallEnd where
  /-- The checker printed something. -/
  | answered (output : String)
  /-- The checker could not answer. -/
  | unavailable
  /-- The call broke down for another reason. -/
  | broke
  /-- The call was given up. -/
  | cancelled
  deriving DecidableEq, Repr

/-- What the caller of a question gets. -/
inductive Outcome where
  /-- The node of the type, or nothing usable. -/
  | result (type : Option Json)
  | raised
  | cancelled

/-- Questions that wait for their turn, and the one that is being asked. -/
structure Queue (ι : Type) where
  pending : List (Entry ι)
  active : Option (Entry ι)

namespace Queue

variable {ι : Type}

def empty : Queue ι := ⟨[], none⟩

instance : Inhabited (Queue ι) := ⟨empty⟩

/-- Starts the next call if none is in flight. -/
def dispatch (q : Queue ι) : Queue ι × Option (Entry ι) :=
  match q.active, q.pending with
  | none, e :: rest => (⟨rest, some e⟩, some e)
  | _, _ => (q, none)

/-- Puts a question; the call that starts thereby, if one does. -/
def submit (q : Queue ι) (e : Entry ι) : Queue ι × Option (Entry ι) :=
  dispatch ⟨q.pending ++ [e], q.active⟩

/-- The call in flight has ended; the call that starts thereby, if one does. -/
def finish (q : Queue ι) : Queue ι × Option (Entry ι) := dispatch ⟨q.pending, none⟩

end Queue

/-- The text to parse for a call that has ended, if there is one. -/
def textToParse (maxLength : Int) : CallEnd → Option String
  | .answered output => sanitize maxLength output
  | _ => none

/-- What a caller gets for a call that has ended. -/
def outcomeOf (maxLength : Int) (parseType : String → Option Json) : CallEnd → Outcome
  | .answered output => .result ((sanitize maxLength output).bind parseType)
  | .unavailable => .result none
  | .broke => .raised
  | .cancelled => .cancelled

/-! ## One queue and its callers

The queue by itself, driven from outside: questions are put, the call in
flight ends, callers stop waiting. -/

/-- What happens to a queue. -/
inductive QueueInput (ι : Type) where
  | submit (e : Entry ι)
  | callEnds (e : CallEnd)
  | stopWaiting (caller : ι)

/-- What a queue does. -/
inductive QueueEvent (ι : Type) where
  | ask (query : Query)
  | parse (text : String)
  | done (caller : ι) (outcome : Outcome)

/-- A queue and the callers that still wait. -/
structure QueueState (ι : Type) where
  queue : Queue ι
  callers : List ι

namespace QueueState

variable {ι : Type} [DecidableEq ι]

def empty : QueueState ι := ⟨.empty, []⟩

/-- The start of a call as an event. -/
def started (e : Option (Entry ι)) : List (QueueEvent ι) :=
  match e with
  | some e => [.ask e.query]
  | none => []

/-- The answer of a call on its way to its caller. -/
def delivery (maxLength : Int) (parseType : String → Option Json) (caller : ι) (e : CallEnd) :
    List (QueueEvent ι) :=
  (match textToParse maxLength e with
    | some text => [.parse text]
    | none => []) ++ [.done caller (outcomeOf maxLength parseType e)]

/-- What a queue does when something happens, until nothing can run any more. -/
def step (maxLength : Int) (parseType : String → Option Json) (s : QueueState ι) :
    QueueInput ι → QueueState ι × List (QueueEvent ι)
  | .submit e =>
    let (queue, next) := s.queue.submit e
    (⟨queue, s.callers ++ [e.caller]⟩, started next)
  | .callEnds ending =>
    match s.queue.active with
    | none => (s, [])
    | some e =>
      let (queue, next) := s.queue.finish
      if e.caller ∈ s.callers then
        (⟨queue, s.callers.filter (· ≠ e.caller)⟩,
          started next ++ delivery maxLength parseType e.caller ending)
      else (⟨queue, s.callers⟩, started next)
  | .stopWaiting caller =>
    if caller ∈ s.callers then
      (⟨s.queue, s.callers.filter (· ≠ caller)⟩, [.done caller .cancelled])
    else (s, [])

end QueueState

end Retype.Inference
