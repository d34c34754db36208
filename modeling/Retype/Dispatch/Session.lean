import Retype.Number.Text
import Retype.Worker.Channel
/-! # Worker sessions

What the primary knows of each worker, what it does, and why a run breaks off.
A worker is sent a batch and answers that it wants the next one; when there is
none it is asked for its report and ended.
-/

namespace Retype.Dispatch

/-- Where a session stands. -/
inductive SessionState where
  | idle
  | awaitingBatchResult
  | awaitingReport
  | terminated
  deriving DecidableEq, Repr

def SessionState.name : SessionState → String
  | idle => "idle"
  | awaitingBatchResult => "awaiting-batch-result"
  | awaitingReport => "awaiting-report"
  | terminated => "terminated"

/-- A worker as the primary sees it. -/
structure Session where
  number : Nat
  state : SessionState
  /-- The batch that the worker has not answered. -/
  batch : Option (List String)
  /-- When the batch counts as stalled. -/
  deadline : Option Double
  deriving Repr

namespace Session

def ofNumber (number : Nat) : Session := ⟨number, .idle, none, none⟩

def isLive (s : Session) : Bool := s.state != .terminated

end Session

/-- What the primary does. -/
inductive Event where
  | printed (line : String)
  | spawned (number : Nat)
  | sent (number : Nat) (message : Message)
  | waited (numbers : List Nat) (timeout : Option Double)
  | received (number : Nat)
  | terminated (number : Nat)

/-- Why a run breaks off. -/
inductive DispatchError where
  /-- Batches are to have no files. -/
  | emptyBatches
  | notSpawned (reason : String)
  | gone (cause : Worker.Gone)
  /-- A worker closes its output before its report. -/
  | exited (number : Nat)
  /-- A worker sends a message that is not due. -/
  | illegal (number : Nat) (kind : String) (state : SessionState)
  | unreadable (cause : ProtocolError)
  /-- Nobody can wait until the next deadline. -/
  | deadlineTooFar
  deriving DecidableEq, Repr

def DispatchError.message : DispatchError → String
  | emptyBatches => "a batch must have at least one file"
  | notSpawned reason => reason
  | gone cause => cause.message
  | exited number => "Worker #" ++ toString number ++ " exited before sending its report"
  | illegal number kind state =>
    "Worker #" ++ toString number ++ " sent " ++ Quoted.text kind ++ " while " ++ state.name
  | unreadable cause => cause.message
  | deadlineTooFar => "the time until a batch counts as stalled is too long"

/-- What a run depends on. -/
structure Settings where
  workers : Int
  batchSize : Nat
  stallSeconds : Double
  /-- The directory that paths are shown from. -/
  cwd : String

/-- The surroundings of a run: the time, and the workers, whose state is `σ`.
They may do anything. -/
structure Surroundings (σ : Type) where
  now : σ → Double
  spawn : σ → Nat → σ × Option String
  send : σ → Nat → Message → σ × Option Worker.Gone
  /-- Waits for some workers; those that have something to say, or none if
  nobody can wait that long. -/
  wait : σ → List Nat → Option Double → σ × Option (List Nat)
  receive : σ → Nat → σ × Except ProtocolError (Option Message)
  terminate : σ → Nat → σ

end Retype.Dispatch
