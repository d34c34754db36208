import Retype.Worker.Message
/-! # The channel to a worker

The primary's side of a worker process: messages are written to its input and
read from its output. Ending the worker closes its input and waits; a worker
that does not end in time is killed.
-/

namespace Retype.Worker

/-- What is done to the process. -/
inductive ChannelEvent where
  | started (command : List String)
  | wrote (text : String)
  | inputClosed
  | waited (seconds : Nat)
  | killed

/-- Why a message cannot be sent: the worker is gone. -/
structure Gone where
  pid : Nat
  deriving DecidableEq, Repr

def Gone.message (g : Gone) : String := "worker exited (pid " ++ toString g.pid ++ ")"

/-- A channel: the process's number, whether its input is open, what is still
to be read of its output, and whether that is open. -/
structure Channel where
  pid : Nat
  inputOpen : Bool
  output : ByteStream
  outputOpen : Bool

namespace Channel

/-- The channel to a process that has just been started. -/
def ofOutput (pid : Nat) (output : ByteStream) : Channel := ⟨pid, true, output, true⟩

/-- Sends a message; `broken` says that nobody reads what is written. -/
def send (c : Channel) (broken : Bool) (m : Message) : Except Gone (List ChannelEvent) :=
  if broken then .error ⟨c.pid⟩ else .ok [.wrote m.written]

/-- Receives a message; none if the worker has closed its output. -/
def receive (c : Channel) : Channel × Except ProtocolError (Option Message) :=
  let (result, rest) := Message.receive c.output
  ({ c with output := rest }, result)

/-- Ends the worker. -/
def terminate (c : Channel) (hangs : Bool) : Channel × List ChannelEvent :=
  ({ c with inputOpen := false, outputOpen := false },
    (if c.inputOpen then [.inputClosed] else []) ++ [.waited 5]
      ++ if hangs then [.killed, .waited 1] else [])

end Channel

/-- The command that starts a worker. -/
def commandLine (python root : String) (configPath : Option String) : List String :=
  [python, "-m", "flowshift.worker", "--root", root] ++
    match configPath with
    | some path => ["--config", path]
    | none => []

end Retype.Worker
