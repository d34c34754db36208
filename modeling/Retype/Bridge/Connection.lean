import Retype.Bridge.Basic
/-! # The process behind the bridge

The bridge is a process that is started by the first request and serves all
later ones. Each request is answered by a frame. Nobody looks whether the
process still lives: a request to one that has ended fails, and so do all later
ones, since no other process is started before the bridge is closed.
-/

namespace Retype

namespace Bridge

/-- What is done to the process. -/
inductive ConnectionEvent where
  | started (command : List String)
  | requested (payload : Json)
  | inputClosed
  | waited (seconds : Nat)
  | killed

/-- Whether there is a process. -/
inductive Connection where
  | closed
  | running
  deriving DecidableEq, Repr

/-- What the surroundings do with a request: why the process cannot be started
or be written to, if so, and the frame that is read then, none at the end of the
output. -/
structure Reaction where
  startFailure : Option String
  writeFailure : Option String
  frame : Except FrameError (Option Json)

/-- What reading a frame amounts to. -/
def exchangeOf : Except FrameError (Option Json) → Exchange
  | .error cause => .malformed cause
  | .ok none => .ended
  | .ok (some response) => .response response

namespace Connection

/-- Sends a request to the process. -/
def send (payload : Json) (r : Reaction) : List ConnectionEvent × Exchange :=
  match r.writeFailure with
  | some reason => ([], .notSent reason)
  | none => ([.requested payload], exchangeOf r.frame)

/-- Sends a request, to a new process if there is none. -/
def request (command : List String) (payload : Json) (r : Reaction) :
    Connection → Connection × List ConnectionEvent × Exchange
  | running => (running, send payload r)
  | closed =>
    match r.startFailure with
    | some reason => (closed, [.started command], .notStarted reason)
    | none =>
      let (events, exchange) := send payload r
      (running, .started command :: events, exchange)

/-- Ends the process: its input is closed, and if that does not end it in time
it is killed. -/
def close (hangs : Bool) : Connection → Connection × List ConnectionEvent
  | closed => (closed, [])
  | running =>
    (closed, [.inputClosed, .waited 5] ++ if hangs then [.killed, .waited 1] else [])

end Connection

end Bridge

/-- A bridge: its command, the options of its printer, and what the
surroundings do with a request after the earlier ones. -/
structure Bridge where
  command : List String
  printer : PrinterOptions
  react : List Json → Json → Bridge.Reaction

end Retype
