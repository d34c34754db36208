import Retype.Batch.File
/-! # The loop

Files are migrated side by side. One loop does all the work in turns: a turn
does the jobs that were ready when it began, in order, and what these make
ready waits for the next turn. A file goes through stages, each of them a job of
its own: what a thread does, or the loop with what a thread has done. Other jobs
may come between two stages; this loop takes up each stage as soon as the one
before it is done. A file whose parameters wait for inferred types waits with
them, while other files go on; the questions of all files go through one queue.
A file that has failed is over at once, but its questions stay in the queue.

A loop serves one batch after another, or one file by itself. When it is
closed nobody waits for an answer any more, and a call that has not been made
is given up.
-/

namespace Retype.Batch

open Inference (Query Queue Entry)
open Migration (FileOptions)

/-- Who waits for an answer: a parameter, by its file's place among the files
of the loop and its own place among those that wait in the file. -/
structure Caller where
  file : Nat
  param : Nat
  deriving DecidableEq, Repr

/-- What is to be done: a tree is rewritten, or a file is migrated. -/
inductive Work where
  | tree (o : FileOptions) (tree : Json)
  | file (path : String)

/-- What has come of a piece of work. -/
inductive Done where
  | tree (tree : Json)
  | file (m : MigratedFile)
  | tooLarge

/-- How a file of a batch is over. -/
inductive Ending where
  | written (m : MigratedFile)
  | skipped
  | failed (cause : Failure)
  deriving DecidableEq

/-- What is found about a file that is over. -/
def Ending.findings (path : String) : Ending → List Finding
  | .written _ => []
  | .skipped => [.file .skippedLargeFiles path]
  | .failed _ => [.file .failedFiles path]

/-- A file whose tree has been walked. -/
structure Walked where
  options : FileOptions
  /-- The text that the tree was parsed from, if it was. -/
  source : Option String
  tree : Json
  hasJsx : Bool
  /-- Where the parameters that wait stand. -/
  locations : List (Result Location)
  /-- The annotations of these parameters, none before the answer is there. -/
  annotations : List (Option Json)
  /-- How many answers are missing. -/
  missing : Nat
  /-- Whether the file waits for them. -/
  waits : Bool

/-- What is done at once. -/
inductive Job where
  /-- A batch begins. -/
  | openBatch (paths : List String)
  /-- A tree is walked, or a file is read. -/
  | start (work : Work)
  /-- The text of a file is parsed. -/
  | parse (path source : String)
  /-- The tree of a file is walked. -/
  | walk (path source : String) (tree : Json)
  /-- The rewritten tree of a file is printed. -/
  | print (path source : String) (tree : Json) (hasJsx : Bool)
  /-- What has come of a file or a tree is put where it belongs. -/
  | settle (path : String) (r : Except Failure Done)
  /-- A parameter puts its question. -/
  | put (c : Caller)
  /-- The checker is called. -/
  | call (e : Entry Caller)
  /-- A call is given up. -/
  | giveUp (e : Entry Caller)
  | callEnded (e : Entry Caller) (output : Option String)
  /-- An answer reaches a parameter. -/
  | answer (c : Caller) (output : Option String)
  /-- The type in an answer is parsed. -/
  | parseType (c : Caller) (text : String)
  /-- A parameter of a file is done. -/
  | answered (file : Nat) (failure : Option Refusal)
  /-- A file does not wait any more. -/
  | resume (file : Nat) (failure : Option Refusal)
  /-- A file of the batch is over. -/
  | fileOver
  /-- The batch is over. -/
  | batchOver
  | stop

namespace Job

/-- How many stages a file goes through from a job on, at most. -/
def depth : Job → Nat
  | parse .. => 5
  | walk .. => 4
  | print .. => 3
  | settle _ (.ok _) => 2
  | settle _ (.error _) => 1
  | parseType .. => 1
  | _ => 6

/-- How much there is to do for a job of a file that was walked: more than for
all jobs that it makes ready. -/
def effort : Job → Nat
  | put _ => 14
  | call _ => 12
  | giveUp _ => 12
  | callEnded .. => 11
  | answer .. => 10
  | parseType .. => 9
  | answered .. => 8
  | resume .. => 7
  | print .. => 6
  | settle _ (.ok _) => 5
  | settle _ (.error _) => 4
  | fileOver => 3
  | batchOver => 2
  | _ => 1

/-- How much there is to do for a question in the queue. -/
def queued : Nat := 13

/-- What some jobs make together. -/
def total (f : Job → Nat) (jobs : List Job) : Nat :=
  jobs.foldr (f · + ·) 0

end Job

/-- What the loop reports as it goes. -/
inductive LogEntry where
  | asked (q : Query)
  | parsed (text : String)
  | failed (path : String) (cause : Failure)
  deriving DecidableEq

/-- What is reported of a file that is over. -/
def Ending.entries (path : String) : Ending → List LogEntry
  | .failed cause => [.failed path cause]
  | _ => []

/-- The state of the loop. -/
structure Loop where
  ready : List Job
  /-- The stages that files are about to go through. -/
  stages : List Job
  queue : Queue Caller
  /-- Who waits for an answer. -/
  waiting : List Caller
  walked : List Walked
  /-- How many files of the batch are not over; none outside of batches. -/
  outstanding : Option Nat
  /-- The files of batches that are over, in this order. -/
  past : List (String × Ending)
  findings : List Finding
  log : List LogEntry
  talk : Talk
  files : Files
  /-- What has come of the work that is not part of a batch. -/
  result : Option (Except Failure Done)
  hasJsx : Bool
  stopped : Bool

/-! ## Trees -/

/-- What is done with a file that has all its annotations. -/
def Walked.onward (w : Walked) : Job :=
  let tree := Migration.annotateWaiting w.options w.annotations w.tree
  match w.source with
  | none => .settle w.options.path (.ok (.tree tree))
  | some source => .print w.options.path source tree w.hasJsx

/-- What is done with a file that does not wait any more. -/
def Walked.conclusion (w : Walked) : Option Refusal → Job
  | some e => .settle w.options.path (.error (.refused e))
  | none => w.onward

/-- What comes of walking a tree: what is found, the file then, and what is
done next with it, unless it waits. -/
structure Beginning where
  findings : List Finding
  walked : Walked
  next : Option Job

/-- A file whose tree has just been walked. -/
def Walked.ofProgress (o : FileOptions) (source : Option String) (p : Migration.Progress)
    (tree : Json) (waits : Bool) : Walked :=
  { options := o
    source := source
    tree := tree
    hasJsx := p.hasJsx
    locations := p.waiting
    annotations := p.waiting.map fun _ => none
    missing := p.waiting.length
    waits := waits }

/-- Rewrites a tree. A file whose tree is refused does not wait for the
parameters that were met. -/
def Beginning.ofTree (o : FileOptions) (source : Option String) (tree : Json) : Beginning :=
  let (result, p) := Migration.rewriteTree o tree
  match result with
  | .error e =>
    let w := Walked.ofProgress o source p tree false
    ⟨p.findings, w, some (w.conclusion (some e))⟩
  | .ok tree =>
    let waits := !p.waiting.isEmpty
    let w := Walked.ofProgress o source p tree waits
    ⟨p.findings, w, if waits then none else some w.onward⟩

namespace Loop

def ofFiles (files : Files) : Loop :=
  { ready := [], stages := [], queue := .empty, waiting := [], walked := [], outstanding := none,
    past := [], findings := [], log := [], talk := .none, files := files, result := none,
    hasJsx := false, stopped := false }

instance : Inhabited Loop := ⟨ofFiles default⟩

/-- Makes jobs ready. -/
def schedule (s : Loop) (jobs : List Job) : Loop := { s with ready := s.ready ++ jobs }

/-- A file is about to go through a stage. -/
def enter (s : Loop) (job : Job) : Loop := { s with stages := s.stages ++ [job] }

def note (s : Loop) (entry : LogEntry) : Loop := { s with log := s.log ++ [entry] }

def record (s : Loop) (findings : List Finding) : Loop :=
  { s with findings := s.findings ++ findings }

/-! ## The end of a file -/

/-- A file of the batch is over. -/
def finishFile (s : Loop) (path : String) (e : Ending) : Loop :=
  { s with
    past := s.past ++ [(path, e)]
    findings := s.findings ++ e.findings path
    log := s.log ++ e.entries path }.schedule [.fileOver]

/-- What has come of a file of the batch; if it was migrated it is written. -/
def settleFile (s : Loop) (path : String) : Except Failure Done → Loop
  | .ok (.file m) =>
    match m.write s.files with
    | .ok files => { s with files := files }.finishFile path (.written m)
    | .error cause => s.enter (.settle path (.error cause))
  | .ok _ => s.finishFile path .skipped
  | .error cause => s.finishFile path (.failed cause)

/-- What is found about a file that is not part of a batch. -/
def skips (path : String) : Except Failure Done → List Finding
  | .ok .tooLarge => Ending.skipped.findings path
  | _ => []

/-- A piece of work is over. -/
def settle (s : Loop) (path : String) (r : Except Failure Done) : Loop :=
  match s.outstanding with
  | some _ => s.settleFile path r
  | none => { s.record (skips path r) with result := some r }.schedule [.stop]

/-! ## The stages of a file -/

/-- Sends a request to the bridge. -/
def request (t : Toolchain) (s : Loop) (payload : Json) : Exchange × Loop :=
  let (x, talk) := t.request s.talk payload
  (x, { s with talk := talk })

/-- What is done with a file that was read. -/
def afterReading (path : String) : Except Failure (Option String) → Job
  | .error cause => .settle path (.error cause)
  | .ok none => .settle path (.ok .tooLarge)
  | .ok (some source) => .parse path source

/-- What is done with a file that was parsed. -/
def afterParsing (path source : String) : Except Failure Json → Job
  | .error cause => .settle path (.error cause)
  | .ok tree => .walk path source tree

/-- The parameters of the next file to be walked. -/
def callers (s : Loop) (count : Nat) : List Caller :=
  (List.range count).map fun i => ⟨s.walked.length, i⟩

/-- A tree was walked. Its parameters put their questions in the next turn, even
if the tree was refused. -/
def begin (s : Loop) (b : Beginning) : Loop :=
  { s with
    ready := s.ready ++ (s.callers b.walked.locations.length).map .put
    stages := s.stages ++ b.next.toList
    findings := s.findings ++ b.findings
    walked := s.walked ++ [b.walked]
    hasJsx := s.hasJsx || b.walked.hasJsx }

/-- Begins a piece of work. -/
def start (t : Toolchain) (s : Loop) : Work → Loop
  | .tree o tree => s.begin (.ofTree o none tree)
  | .file path => s.enter (afterReading path (t.readSource s.files path))

def parse (t : Toolchain) (s : Loop) (path source : String) : Loop :=
  let (x, s) := s.request t (Bridge.parseRequest source)
  s.enter (afterParsing path source (t.parsed x))

def print (t : Toolchain) (s : Loop) (path source : String) (tree : Json) (hasJsx : Bool) : Loop :=
  let (x, s) := s.request t (t.printRequest source tree)
  s.enter (.settle path ((t.printed path hasJsx x).map .file))

/-! ## The parameters of a file -/

/-- The call that has started, as a job. -/
def started : Option (Entry Caller) → List Job
  | some e => [.call e]
  | none => []

/-- Where a parameter stands, and the path of its file. -/
def place? (s : Loop) (c : Caller) : Option (FileOptions × Result Location) := do
  let w ← s.walked[c.file]?
  return (w.options, ← w.locations[c.param]?)

/-- A parameter puts its question. -/
def put (s : Loop) (c : Caller) : Loop :=
  match s.place? c with
  | none => s
  | some (_, .error e) => s.schedule [.answered c.file (some e)]
  | some (o, .ok location) =>
    let (queue, next) := s.queue.submit ⟨c, ⟨o.path, location⟩⟩
    { s with queue := queue, waiting := s.waiting ++ [c] }.schedule (started next)

/-- The checker is called, and will answer. -/
def call (t : Toolchain) (s : Loop) (e : Entry Caller) : Loop :=
  let (output, talk) := t.ask s.talk e.query
  ({ s with talk := talk }.note (.asked e.query)).schedule [.callEnded e output]

/-- A call has ended: the next one starts, and whoever waits gets the answer. -/
def callEnded (s : Loop) (e : Entry Caller) (output : Option String) : Loop :=
  let (queue, next) := s.queue.finish
  let s := { s with queue := queue }.schedule (started next)
  if e.caller ∈ s.waiting then
    { s with waiting := s.waiting.filter (· ≠ e.caller) }.schedule [.answer e.caller output]
  else s

/-- Gives a parameter its annotation. -/
def annotate (s : Loop) (c : Caller) (type : Option Json) : Loop :=
  { s with walked := s.walked.modify c.file fun w =>
      { w with annotations := w.annotations.set c.param type } }

/-- A parameter has the type that was inferred for it, or knows that there is
none. -/
def infer (s : Loop) (c : Caller) (type : Option Json) : Loop :=
  match s.place? c with
  | some (o, .ok location) =>
    let r := Migration.annotationInferred o location type
    let s := s.record r.findings
    match r.result with
    | .ok type => (s.annotate c type).schedule [.answered c.file none]
    | .error e => s.schedule [.answered c.file (some e)]
  | _ => s

/-- An answer reaches a parameter. -/
def answer (t : Toolchain) (s : Loop) (c : Caller) (output : Option String) : Loop :=
  match t.typeText output with
  | some text => s.enter (.parseType c text)
  | none => s.infer c none

def parseType (t : Toolchain) (s : Loop) (c : Caller) (text : String) : Loop :=
  let (x, s) := s.request t (Bridge.parseRequest (Bridge.aliasSource text))
  (s.note (.parsed text)).infer c (t.parsedType x)

/-- A parameter of a file is done. The first failure, or the last answer, ends
the file's waiting. -/
def answered (s : Loop) (file : Nat) (failure : Option Refusal) : Loop :=
  match s.walked[file]? with
  | none => s
  | some w =>
    let ends := failure.isSome || w.missing ≤ 1
    if w.waits then
      let w := { w with missing := w.missing - 1, waits := !ends }
      let s := { s with walked := s.walked.set file w }
      if ends then s.schedule [.resume file failure] else s
    else s

/-- A file goes on after its waiting. -/
def resume (s : Loop) (file : Nat) (failure : Option Refusal) : Loop :=
  match s.walked[file]? with
  | none => s
  | some w => s.enter (w.conclusion failure)

/-! ## The jobs -/

/-- A batch begins: its files start in the next turn. -/
def openBatch (s : Loop) (paths : List String) : Loop :=
  { s with outstanding := some paths.length }.schedule <|
    if paths.isEmpty then [.stop] else paths.map fun path => .start (.file path)

/-- A file of the batch is over, and with the last one the batch. -/
def fileOver (s : Loop) : Loop :=
  let left := s.outstanding.getD 0 - 1
  let s := { s with outstanding := some left }
  if left = 0 then s.schedule [.batchOver] else s

/-- Does a job. -/
def run (t : Toolchain) (s : Loop) : Job → Loop
  | .openBatch paths => s.openBatch paths
  | .start work => s.start t work
  | .parse path source => s.parse t path source
  | .walk path source tree => s.begin (.ofTree (t.fileOptions path) (some source) tree)
  | .print path source tree hasJsx => s.print t path source tree hasJsx
  | .settle path r => s.settle path r
  | .put c => s.put c
  | .call e => s.call t e
  | .giveUp e => s.schedule [.callEnded e none]
  | .callEnded e output => s.callEnded e output
  | .answer c output => s.answer t c output
  | .parseType c text => s.parseType t c text
  | .answered file failure => s.answered file failure
  | .resume file failure => s.resume file failure
  | .fileOver => s.fileOver
  | .batchOver => s.schedule [.stop]
  | .stop => { s with stopped := true }

/-! ## Turns -/

/-- Goes through the stages that files are about to go through, but through no
more than the given number. -/
def join (t : Toolchain) : Nat → Loop → Loop
  | 0, s => s
  | n + 1, s =>
    match s.stages with
    | [] => s
    | job :: rest => join t n ({ s with stages := rest }.run t job)

/-- Does a job and all stages after it. -/
def act (t : Toolchain) (s : Loop) (job : Job) : Loop :=
  let s := s.run t job
  s.join t (Job.total Job.depth s.stages)

/-- Does the jobs that are ready. -/
def turn (t : Toolchain) (s : Loop) : Loop :=
  s.ready.foldl (act t) { s with ready := [] }

/-- Takes turns until the loop stops, but no more than the given number. -/
def turns (t : Toolchain) : Nat → Loop → Loop
  | 0, s => s
  | n + 1, s => if s.stopped then s else turns t n (s.turn t)

/-- A bound on the turns that are left once every file has been walked. -/
def effort (s : Loop) : Nat :=
  Job.total Job.effort (s.ready ++ s.stages) + Job.queued * s.queue.pending.length

/-- Takes turns until the loop stops. Two turns walk every file. -/
def untilStopped (t : Toolchain) (s : Loop) : Loop :=
  let s := turns t 2 { s with stopped := false }
  turns t s.effort s

/-- Migrates a batch. What earlier batches have left in the loop goes on. -/
def batch (t : Toolchain) (s : Loop) (paths : List String) : Loop :=
  (s.schedule [.openBatch paths]).untilStopped t

/-- Does one piece of work by itself. -/
def alone (t : Toolchain) (s : Loop) (work : Work) : Loop :=
  ({ s with outstanding := none, result := none }.schedule [.start work]).untilStopped t

/-! ## Closing -/

/-- What becomes of a job that is ready when the loop is closed. -/
def closingJob : Job → List Job
  | .put _ => []
  | .answer .. => []
  | .parseType .. => []
  | .call e => [.giveUp e]
  | job => [job]

/-- The turns that a loop takes while it is closed. -/
def closingTurns : Nat := 7

/-- Closes the loop. -/
def close (t : Toolchain) (s : Loop) : Loop :=
  turns t closingTurns
    { s with
      ready := s.ready.flatMap closingJob
      stages := s.stages.flatMap closingJob
      waiting := []
      stopped := false }

end Loop

end Retype.Batch
