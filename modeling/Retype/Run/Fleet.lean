import Retype.Dispatch.Orchestrator
import Retype.Frame.Wait
import Retype.Run.Environment
/-! # A fleet of workers

Workers that share one set of files with the primary. A worker reads its own
configuration when it is spawned, takes its messages one after the other, and is
over when something goes wrong with it. Its output ends when it is over and all
its replies have been read. How far the workers get while the primary does
something is a matter of their pace: it may be that each of them has dealt with
all its messages, or that all of them are in the middle of a batch.
-/

namespace Retype

open Batch (Loop LogEntry Toolchain)
open Dispatch (Surroundings)

/-- Why a worker is over before its input has ended. -/
inductive WorkerFailure where
  | config (cause : ConfigError)
  | protocol (cause : ProtocolError)
  deriving DecidableEq, Repr

/-- What workers write for a person. -/
inductive WorkerNotice where
  | entry (e : LogEntry)
  | broken (cause : WorkerFailure)

/-- A worker: its tools, its loop, whether it is doing a batch, the messages
that it has not taken and the replies that have not been read; or one that is
over. -/
structure WorkerProcess where
  tools : Option Toolchain
  loop : Loop
  busy : Bool
  inbox : List Message
  replies : List Message

/-- How often the primary has done something, the files, the workers by their
numbers, and what the workers have written. -/
structure Fleet where
  calls : Nat
  files : Files
  workers : List (Nat × WorkerProcess)
  notices : List WorkerNotice

namespace Fleet

def ofFiles (files : Files) : Fleet := ⟨0, files, [], []⟩

/-- A fleet in which the worker with a number is another one. -/
def put (f : Fleet) (number : Nat) (p : WorkerProcess) : Fleet :=
  { f with workers := (f.workers.filter (·.1 ≠ number)) ++ [(number, p)] }

/-- A worker whose loop has gone on: its files and its log are the fleet's. -/
def absorb (f : Fleet) (number : Nat) (p : WorkerProcess) : Fleet :=
  ({ f with
    files := p.loop.files
    notices := f.notices ++ p.loop.log.map WorkerNotice.entry }).put number
      { p with loop := { p.loop with log := [] } }

/-- A worker that is over, with the loop that it leaves behind. -/
def breakOff (f : Fleet) (number : Nat) (loop : Loop) (replies : List Message)
    (cause : WorkerFailure) : Fleet :=
  { f with notices := f.notices ++ [WorkerNotice.broken cause] }.put number
    ⟨none, loop, false, [], replies⟩

/-- Spawns a worker, which reads its configuration. -/
def spawn (e : Environment) (root : String) (configPath : Option String) (f : Fleet)
    (number : Nat) : Fleet :=
  match e.config f.files root root configPath [] with
  | .error cause => f.breakOff number (Loop.ofFiles f.files) [] (.config cause)
  | .ok c => f.put number ⟨some (e.toolchain number c), Loop.ofFiles f.files, false, [], []⟩

/-- Sends a message to a worker. -/
def send (f : Fleet) (number : Nat) (m : Message) : Fleet :=
  match f.workers.lookup number with
  | some p => if p.tools.isSome then f.put number { p with inbox := p.inbox ++ [m] } else f
  | none => f

/-- A worker that is doing nothing takes its next message, does what is to be
done, and replies. -/
def answerNext (f : Fleet) (number : Nat) : Fleet :=
  match f.workers.lookup number with
  | some ⟨some tools, loop, false, m :: inbox, replies⟩ =>
    match Worker.respond (Worker.migrating tools) { loop with files := f.files } m with
    | .ok (loop, reply) => f.absorb number ⟨some tools, loop, false, inbox, replies ++ [reply]⟩
    | .error cause => f.breakOff number loop replies (.protocol cause)
  | _ => f

/-- Each worker deals with all its messages. -/
def catchUp (f : Fleet) : Fleet :=
  f.workers.foldl (fun f (number, p) => p.inbox.foldl (fun f _ => f.answerNext number) f) f

/-- Receives the next reply of a worker. -/
def receive (f : Fleet) (number : Nat) : Fleet × Option Message :=
  match f.workers.lookup number with
  | some p =>
    match p.replies with
    | reply :: replies => (f.put number { p with replies := replies }, some reply)
    | [] => (f, none)
  | none => (f, none)

/-- Whether a worker has something to read: a reply, or the end. -/
def isReadable (f : Fleet) (number : Nat) : Bool :=
  match f.workers.lookup number with
  | some p => !p.replies.isEmpty || p.tools.isNone
  | none => true

/-- Ends a worker. One that is doing a batch is cut off, any other one closes its
loop. -/
def terminate (f : Fleet) (number : Nat) : Fleet :=
  match f.workers.lookup number with
  | some ⟨some tools, loop, false, _, replies⟩ =>
    f.absorb number ⟨none, ({ loop with files := f.files }).close tools, false, [], replies⟩
  | some p => f.put number { p with tools := none, busy := false, inbox := [] }
  | none => f

/-- How fast the workers are: what time it is, and how far they have got when the
primary has done something. -/
structure Pace where
  now : Fleet → Double
  meanwhile : Fleet → Fleet

/-- No time passes until the workers have dealt with all their messages. -/
def Pace.atOnce : Pace := ⟨fun _ => Double.zero false, catchUp⟩

/-- The workers get on while the primary does something. -/
def pass (pace : Pace) (f : Fleet) : Fleet :=
  pace.meanwhile { f with calls := f.calls + 1 }

/-- The fleet as the surroundings of a run at a root. -/
def surroundings (e : Environment) (pace : Pace) (root : String) (configPath : Option String) :
    Surroundings Fleet where
  now := pace.now
  spawn := fun f number => ((f.spawn e root configPath number).pass pace, none)
  send := fun f number m => ((f.send number m).pass pace, none)
  wait := fun f numbers time =>
    let f := f.pass pace
    (f, if (Timeout.ofSeconds? time).isCountable then some (numbers.filter f.isReadable) else none)
  receive := fun f number =>
    let (f, m) := f.receive number
    (f, .ok m)
  terminate := terminate

end Fleet

end Retype
