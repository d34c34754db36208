import Retype.Dispatch.Session
/-! # The orchestrator

The primary's side of a run. The files wait in one queue; workers are spawned
while there are files, and each pulls the next batch when it has done one, so
that a slow batch holds up nobody. A batch that takes too long is reported
once and goes on. A run ends with one report for each worker, or breaks off;
either way every worker is ended.
-/

namespace Retype.Dispatch

/-- The state of a run. -/
structure RunState (σ : Type) where
  surroundings : σ
  /-- The files that wait, the next one first. -/
  queue : List String
  sessions : List Session
  reports : List Report
  events : List Event

/-- A step of a run. What was done before the run breaks off stays done. -/
abbrev Run (σ : Type) := ExceptT DispatchError (StateM (RunState σ))

namespace Run

variable {σ : Type}

/-! ## What the primary does -/

def emit (e : Event) : Run σ Unit := modify fun s => { s with events := s.events ++ [e] }

def print (line : String) : Run σ Unit := emit (.printed line)

def now (w : Surroundings σ) : Run σ Double := return w.now (← get).surroundings

def spawn (w : Surroundings σ) (number : Nat) : Run σ Unit := do
  emit (.spawned number)
  let (surroundings, failure) := w.spawn (← get).surroundings number
  modify fun s => { s with surroundings := surroundings }
  match failure with
  | some reason => throw (.notSpawned reason)
  | none => pure ()

def send (w : Surroundings σ) (number : Nat) (m : Message) : Run σ Unit := do
  emit (.sent number m)
  let (surroundings, failure) := w.send (← get).surroundings number m
  modify fun s => { s with surroundings := surroundings }
  match failure with
  | some cause => throw (.gone cause)
  | none => pure ()

def wait (w : Surroundings σ) (numbers : List Nat) (timeout : Option Double) :
    Run σ (List Nat) := do
  emit (.waited numbers timeout)
  let (surroundings, ready) := w.wait (← get).surroundings numbers timeout
  modify fun s => { s with surroundings := surroundings }
  match ready with
  | some ready => return ready
  | none => throw .deadlineTooFar

def receive (w : Surroundings σ) (number : Nat) : Run σ (Option Message) := do
  emit (.received number)
  let (surroundings, result) := w.receive (← get).surroundings number
  modify fun s => { s with surroundings := surroundings }
  match result with
  | .ok m => return m
  | .error cause => throw (.unreadable cause)

/-- Changes the session of a worker. -/
def update (number : Nat) (f : Session → Session) : Run σ Unit :=
  modify fun s =>
    { s with sessions := s.sessions.map fun x => if x.number = number then f x else x }

def terminate (w : Surroundings σ) (number : Nat) : Run σ Unit := do
  emit (.terminated number)
  modify fun s => { s with surroundings := w.terminate s.surroundings number }
  update number fun s => { s with state := .terminated }

/-! ## Batches -/

/-- The number of workers that some files keep busy. -/
def workerCount (o : Settings) (files : Nat) : Int :=
  min o.workers (((files + o.batchSize - 1) / o.batchSize : Nat) : Int)

/-- Takes the next batch out of the queue, unless it is empty. -/
def popBatch (o : Settings) : Run σ (Option (List String)) := do
  let s ← get
  if s.queue.isEmpty then return none
  else
    set { s with queue := s.queue.drop o.batchSize }
    return some (s.queue.take o.batchSize)

def sendBatch (w : Surroundings σ) (o : Settings) (number : Nat) (batch : List String) :
    Run σ Unit := do
  print ("Sending " ++ toString batch.length ++ " files to worker #" ++ toString number)
  send w number (.batch batch)
  let time ← now w
  update number fun s =>
    { s with
      batch := some batch
      state := .awaitingBatchResult
      deadline := some (time.add o.stallSeconds) }

/-- Spawns the workers with the given numbers, while there are files. -/
def spawnAll (w : Surroundings σ) (o : Settings) : List Nat → Run σ Unit
  | [] => pure ()
  | number :: rest => do
    match ← popBatch o with
    | none => pure ()
    | some batch =>
      spawn w number
      modify fun s => { s with sessions := s.sessions ++ [Session.ofNumber number] }
      sendBatch w o number batch
      spawnAll w o rest

/-- The numbers of the workers. There is a file for each that is spawned. -/
def workerNumbers (o : Settings) (files : Nat) : List Nat :=
  (List.range (min o.workers.toNat files)).map (· + 1)

/-- Begins a run. -/
def start (w : Surroundings σ) (o : Settings) : Run σ Unit := do
  let files := (← get).queue.length
  if o.batchSize = 0 then throw .emptyBatches
  print ("Spawning " ++ toString (workerCount o files) ++ " workers to process " ++ toString files
    ++ " files")
  spawnAll w o (workerNumbers o files)

/-! ## Stalls -/

/-- The earlier of two times. -/
def earlier (a b : Double) : Double := if b.lt a then b else a

/-- The earliest deadline of some sessions. -/
def earliest? (sessions : List Session) : Option Double :=
  match sessions.filterMap (·.deadline) with
  | [] => none
  | d :: ds => some (ds.foldl earlier d)

/-- How long to wait for some sessions: until the earliest deadline, or for
ever. -/
def timeout (w : Surroundings σ) (live : List Session) : Run σ (Option Double) := do
  match earliest? live with
  | none => return none
  | some d =>
    let left := d.sub (← now w)
    return some (if left.isPositive then left else Double.zero false)

def stallLine (o : Settings) (number : Nat) : String :=
  "Worker #" ++ toString number ++ " hasn't responded in " ++ o.stallSeconds.generalText
    ++ " seconds after sending the batch:"

/-- Whether a batch counts as stalled. -/
def isStalled (time : Double) (s : Session) : Bool :=
  match s.deadline with
  | some d => !time.lt d
  | none => false

/-- Reports a batch that is stalled, once. -/
def reportStall (o : Settings) (time : Double) (s : Session) : Run σ Unit :=
  if isStalled time s then do
    update s.number fun s => { s with deadline := none }
    print (stallLine o s.number)
    (s.batch.getD []).forM fun path => print ("• " ++ Path.display path o.cwd)
  else pure ()

def reportStalls (w : Surroundings σ) (o : Settings) (silent : List Session) : Run σ Unit := do
  let time ← now w
  silent.forM (reportStall o time)

/-! ## Rounds -/

/-- A worker wants its next batch, or is asked for its report. -/
def advance (w : Surroundings σ) (o : Settings) (number : Nat) : Run σ Unit := do
  update number fun s => { s with batch := none, state := .idle }
  match ← popBatch o with
  | some batch => sendBatch w o number batch
  | none =>
    send w number .reportRequest
    update number fun s => { s with state := .awaitingReport }

/-- Deals with what a worker has sent. -/
def handle (w : Surroundings σ) (o : Settings) (s : Session) (m : Option Message) : Run σ Unit := do
  update s.number fun s => { s with deadline := none }
  match s.state, m with
  | _, none => throw (.exited s.number)
  | .awaitingBatchResult, some .next => advance w o s.number
  | .awaitingReport, some (.report data) =>
    modify fun s => { s with reports := s.reports ++ [data] }
    terminate w s.number
  | state, some m => throw (.illegal s.number m.kindName state)

/-- The sessions that have not ended. -/
def live : Run σ (List Session) := return (← get).sessions.filter (·.isLive)

/-- Waits for the workers once and deals with those that have something to
say; whether there was anybody to wait for. -/
def round (w : Surroundings σ) (o : Settings) : Run σ Bool := do
  let live ← live
  if live.isEmpty then return false
  else
    let ready ← wait w (live.map (·.number)) (← timeout w live)
    reportStalls w o (live.filter fun s => !ready.contains s.number)
    (live.filter fun s => ready.contains s.number).forM fun s => do
      handle w o s (← receive w s.number)
    return true

/-- Goes round until nobody is left, but no more than the given number of
times; whether nobody is left. -/
def rounds (w : Surroundings σ) (o : Settings) : Nat → Run σ Bool
  | 0 => return false
  | n + 1 => do
    if ← round w o then rounds w o n else return true

end Run

/-! ## Whole runs -/

/-- How a run ends. -/
inductive RunEnd where
  | finished
  | failed (cause : DispatchError)
  /-- The workers have not come to an end. -/
  | unfinished

namespace RunState

variable {σ : Type}

/-- The state before a run. The files are handed out from the end of their
list. -/
def ofFiles (surroundings : σ) (files : List String) : RunState σ :=
  ⟨surroundings, files.reverse, [], [], []⟩

/-- Ends every worker that has not ended. -/
def shutDown (w : Surroundings σ) (s : RunState σ) : RunState σ :=
  ((s.sessions.filter (·.isLive)).forM fun x => Run.terminate w x.number : Run σ Unit) s |>.2

/-- Runs the workers to their reports, in at most the given number of rounds. -/
def run (w : Surroundings σ) (o : Settings) (maxRounds : Nat) (s : RunState σ) :
    RunEnd × RunState σ :=
  match (do Run.start w o; Run.rounds w o maxRounds : Run σ Bool) s with
  | (.error cause, s) => (.failed cause, s.shutDown w)
  | (.ok true, s) => (.finished, s.shutDown w)
  | (.ok false, s) => (.unfinished, s)

end RunState

end Retype.Dispatch
