import Retype.Bridge.Connection
import Retype.Inference.Queue
import Retype.Migration.Tree
import Retype.Source.Path
/-! # Migrating one file

The stages of a file before and after its tree is rewritten: reading and
parsing, then printing and writing. A failure in any of them is the failure
of that file alone. What the other programs say depends on what was said to
them before, by this file or by others.

In the text that was printed the header that marks a file for the checker is
dropped together with the blank lines after it, and marks that silence the
checker become marks that silence the compiler.
-/

namespace Retype.Batch

/-! ## Printed texts -/

/-- How the header begins. -/
def headerMark : List Char := "// @flow".toList

/-- Text without the first header. The header ends with its line; one on a
line that does not end is none. -/
def dropHeader : List Char → List Char
  | [] => []
  | c :: rest =>
    if headerMark.isPrefixOf (c :: rest) then
      match rest.dropWhile (· ≠ '\n') with
      | [] => c :: rest
      | more => more.dropWhile (· = '\n')
    else c :: dropHeader rest

/-- Replaces every occurrence of a text, from left to right. The first
`skip` characters belong to an occurrence that has been replaced. -/
def replaceFrom (old new : List Char) : Nat → List Char → List Char
  | _, [] => []
  | skip + 1, _ :: rest => replaceFrom old new skip rest
  | 0, c :: rest =>
    if old.isPrefixOf (c :: rest) then new ++ replaceFrom old new (old.length - 1) rest
    else c :: replaceFrom old new 0 rest

def checkerSilencer : List Char := "// flow-disable-next-line".toList

def compilerSilencer : List Char := "// @ts-ignore".toList

/-- The text that is written for a printed text. -/
def fixups (s : String) : String :=
  String.ofList (replaceFrom checkerSilencer compilerSilencer 0 (dropHeader s.toList))

/-- The path that a rewritten file is written to; a path without a name has
none. -/
def targetPath? (path : String) (hasJsx : Bool) : Option String :=
  ((Path.parse path).withSuffix? (if hasJsx then ".tsx" else ".ts")).map Path.toText

/-! ## What files are migrated with -/

/-- Why a file is not migrated. -/
inductive Failure where
  | file (cause : FileError) (path : String)
  | bridge (cause : BridgeError)
  | refused (cause : Refusal)
  /-- The path has no name whose suffix could be changed. -/
  | nameless (path : String)
  deriving DecidableEq, Repr

def Failure.message : Failure → String
  | file cause path => cause.message path
  | bridge cause => cause.message
  | refused cause => cause.message
  | nameless path => "no file name in " ++ Quoted.text path

/-- A file that has been migrated, and the text that is to be written. -/
structure MigratedFile where
  source : String
  target : String
  text : String
  deriving DecidableEq, Repr

/-- Whoever is asked for the types of parameters: how long an answer may be,
and what is answered to a question after the earlier ones, if anything is. -/
structure Checker where
  maxTypeLength : Int
  ask : List Inference.Query → Inference.Query → Option String

/-- What files are migrated with. -/
structure Toolchain where
  settings : MigrateSettings
  bridge : Bridge
  checker : Option Checker

/-- What was said to the other programs: whether there is a process behind the
bridge, what has come of each request, and what was answered to each question. -/
structure Talk where
  connection : Bridge.Connection
  exchanges : List (Json × Exchange)
  answers : List (Inference.Query × Option String)

/-- Nothing has been said. -/
def Talk.none : Talk := ⟨.closed, [], []⟩

namespace Toolchain

/-- The options of the rewriting of a file. -/
def fileOptions (t : Toolchain) (path : String) : Migration.FileOptions :=
  { path := path
    isTestFile := path.endsWith t.settings.testFileSuffix
    helpers := t.settings.helpersNamespace
    utilsModule := t.settings.utilsModule
    utilsBinding := t.settings.utilsBinding
    infers := t.checker.isSome }

/-! ## Talking to the other programs -/

/-- Sends a request to the bridge. -/
def request (t : Toolchain) (talk : Talk) (payload : Json) : Exchange × Talk :=
  let reaction := t.bridge.react (talk.exchanges.map (·.1)) payload
  let (connection, _, x) := talk.connection.request t.bridge.command payload reaction
  (x, { talk with connection := connection, exchanges := talk.exchanges ++ [(payload, x)] })

/-- Puts a question to the checker. -/
def ask (t : Toolchain) (talk : Talk) (q : Inference.Query) : Option String × Talk :=
  let output := t.checker.bind (·.ask (talk.answers.map (·.1)) q)
  (output, { talk with answers := talk.answers ++ [(q, output)] })

/-- The tree of a text, after the request to parse it. -/
def parsed (t : Toolchain) (x : Exchange) : Except Failure Json :=
  (Bridge.parsed t.bridge.command x).mapError .bridge

/-- The request to print a tree. -/
def printRequest (t : Toolchain) (source : String) (tree : Json) : Json :=
  Bridge.printRequest t.bridge.printer tree source

/-- The file of a rewritten tree, after the request to print it. -/
def printed (t : Toolchain) (path : String) (hasJsx : Bool) (x : Exchange) :
    Except Failure MigratedFile := do
  let text ← (Bridge.printed t.bridge.command x).mapError .bridge
  match targetPath? path hasJsx with
  | some target => return ⟨(Path.parse path).toText, target, fixups text⟩
  | none => .error (.nameless path)

/-- The text of the type in an answer, if there is one. -/
def typeText (t : Toolchain) (output : Option String) : Option String :=
  t.checker.bind fun checker => output.bind (Inference.sanitize checker.maxTypeLength)

/-- The type of such a text, after the request to parse it. -/
def parsedType (t : Toolchain) (x : Exchange) : Option Json :=
  (Bridge.parsedType t.bridge.command x).toOption

/-! ## Reading -/

/-- The text of a file, or none if the file is too large. -/
def readSource (t : Toolchain) (files : Files) (path : String) : Except Failure (Option String) :=
  match files.read (Path.parse path) with
  | .error cause => .error (.file cause path)
  | .ok bytes =>
    if t.settings.maxFileBytes < bytes.length then .ok none
    else
      match Utf8.decode? bytes with
      | some source => .ok (some source)
      | none => .error (.file .notText path)

end Toolchain

/-- Files in which a migrated file is written. -/
def MigratedFile.write (m : MigratedFile) (files : Files) : Except Failure Files :=
  (files.write (Path.parse m.target) (Utf8.encode m.text)).mapError fun cause =>
    .file cause m.target

end Retype.Batch
