import Retype.Command.Program
import Retype.Text.Style
/-! # The command line

The files of the current directory are read, the program is run on them, and
what it has changed is written back. A first argument `worker` makes the
process a worker, which serves the messages on its standard input. No other
program is started: the bridge, the checker and the listing of the repository
count as programs that are not there.
-/

namespace Retype.Main

open Command (Outcome WorkerOutcome)

/-- The text of the path of a file. -/
def pathText (t : Trail) : String := "/" ++ String.intercalate "/" t

/-- The files beneath a directory, links left out. -/
partial def filesBeneath (directory : String) : IO (List (Trail × List UInt8)) := do
  let place ← IO.FS.realPath directory
  let mut found := []
  for entry in ← place.readDir do
    let path := entry.path.toString
    match (← entry.path.symlinkMetadata).type with
    | .dir => found := found ++ (← filesBeneath path)
    | .file =>
      let bytes ← IO.FS.readBinFile path
      found := found ++ [((Path.parse path).parts, bytes.toList)]
    | _ => pure ()
  return found

/-- Writes the files that are new or changed, and removes those that are
gone. -/
def save (before after : Files) : IO Unit := do
  for (trail, bytes) in after.files do
    if before.get? trail ≠ some bytes then
      IO.FS.writeBinFile (pathText trail) ⟨bytes.toArray⟩
  for (trail, _) in before.files do
    if (after.get? trail).isNone then IO.FS.removeFile (pathText trail)

/-- Texts in an order that a generator of random numbers gives them. -/
def shuffled (gen : StdGen) (xs : List String) : List String :=
  let (_, keyed) := xs.foldl
    (fun ((gen, keyed) : StdGen × List (Nat × String)) x =>
      let (key, gen) := randNat gen 0 (1 <<< 30)
      (gen, (key, x) :: keyed)) (gen, [])
  (keyed.mergeSort fun a b => a.1 ≤ b.1).map (·.2)

/-- What a run finds around it when there are no other programs. -/
def surroundings (cwd : String) (gen : StdGen) : Environment where
  cwd := cwd
  processors := none
  bridgeScript := "bridge.js"
  react := fun _ _ _ _ => ⟨some "not available", none, .ok none⟩
  check := fun _ _ _ _ => .notStarted "not available"
  nesting := ⟨1000, 1000⟩
  listing := fun _ => .notStarted "not available"
  shuffle := shuffled gen

/-- Writes text, without styles if nobody looks at a terminal. -/
def put (out : IO.FS.Stream) (s : String) : IO Unit := do
  out.putStr (if ← out.isTty then s else Style.strip s)

def writeLines (out : IO.FS.Stream) (lines : List String) : IO Unit :=
  lines.forM fun line => put out (line ++ "\n")

end Retype.Main

open Retype in
def main (args : List String) : IO UInt32 := do
  let cwd := (← IO.currentDir).toString
  let e := Main.surroundings cwd (mkStdGen (← IO.rand 0 (1 <<< 30)))
  let before := Files.ofList (← Main.filesBeneath cwd)
  let stdout ← IO.getStdout
  let stderr ← IO.getStderr
  match args with
  | "worker" :: args =>
    let input ← (← IO.getStdin).readBinToEnd
    let r := Command.workerProgram e before args (.ofBytes input.toList)
    Main.save before r.files
    for reply in r.replies do stdout.putStr reply.written
    Main.writeLines stderr (r.log.flatMap (Command.entryLines cwd) ++ r.ending.lines)
    return r.ending.status.toUInt32
  | _ =>
    let r := Command.program e before args
    Main.save before r.files
    Main.put stdout r.output
    Main.writeLines stderr (r.notices.flatMap (Command.Notice.lines cwd) ++ r.ending.lines)
    return r.ending.status.toUInt32
