/-
  UnionTyping/Cli/Command.lean
  ============================
  **The command** — read a program, and write each of its nodes with its type.
  What cannot be read or typed goes to the error output and makes the command
  fail; a type error while reading ends it before anything is written.

  The command is a function from its options, the name of a log level and the
  text it works on to what it writes.
-/
import UnionTyping.Cli.Log
import UnionTyping.Cli.Options
import UnionTyping.Listing.Tree
import UnionTyping.Reading
import UnionTyping.Types.Runtime

namespace UnionTyping.Cli

open UnionTyping

/-! ### Sources -/

/-- Why a file has no text. -/
inductive SourceFault where
  | missing
  | directory
  | notUtf8
  /-- As the system describes it. -/
  | other (description : Text)

def SourceFault.message : SourceFault → Text
  | missing => "No such file or directory (os error 2)".toList
  | directory => "Is a directory (os error 21)".toList
  | notUtf8 => "stream did not contain valid UTF-8".toList
  | other t => t

/-- The text that a file holds. -/
def decodeSource (bytes : ByteArray) : Except SourceFault Text :=
  match String.fromUTF8? bytes with
  | some s => .ok s.toList
  | none => .error .notUtf8

/-! ### Output -/

/-- What is written, and whether something went wrong. -/
structure Output where
  stdout : Text := []
  stderr : Text := []
  failed : Bool := false

namespace Output

def append (x y : Output) : Output :=
  ⟨x.stdout ++ y.stdout, x.stderr ++ y.stderr, x.failed || y.failed⟩

instance : Append Output := ⟨append⟩

def line (t : Text) : Output := { stdout := t ++ ['\n'] }

def failure (t : Text) : Output := { stderr := t ++ ['\n'], failed := true }

def log (level : LogLevel) (events : List Event) : Output := { stderr := logLines level events }

def concat (xs : List Output) : Output := xs.foldl append {}

/-- The exit code. -/
def code (x : Output) : Nat := if x.failed then 1 else 0

end Output

open Output

/-! ### Nodes -/

/-- The line about the resolved form of a type. -/
def resolved (t : SourceType) : Output :=
  match Registry.builtins.resolve t .empty with
  | .ok r => line ("  resolved: ".toList ++ RuntimeType.text r)
  | .error e => failure e.message

/-- A node with its type. -/
def typed (o : Options) (level : LogLevel) (env : TypeEnv) (n : Node) : Output :=
  let typing := typeOf env n
  log level typing.events ++
    match typing.result with
    | .error e => failure e.message
    | .ok t =>
      line (n.text ++ " : ".toList ++ SourceType.text t) ++ if o.resolve then resolved t else {}

/-- All about one node of a program. -/
def describe (o : Options) (level : LogLevel) (env : TypeEnv) (n : Node) : Output :=
  (if o.ast then line (n.listing.text 0) else {}) ++
    match n with
    | .invalid text fragment reason =>
      failure ("invalid: ".toList ++ text ++ " (".toList ++ fragment ++ ": ".toList ++ reason
        ++ [')'])
    | _ => typed o level env n

/-! ### Programs -/

/-- The command on a text. -/
def runText (o : Options) (level : LogLevel) (t : Text) : Output :=
  let reading := readProgram t (if o.noBuiltins then .empty else .initial)
  log level reading.events ++
    match reading.result with
    | .error e => failure e.message
    | .ok nodes => concat (nodes.map (describe o level reading.env))

/-- The report on a file without text. -/
def unreadable (path : Text) (fault : SourceFault) : Output :=
  failure ("Error: failed to read ".toList ++ path ++ "\n\nCaused by:\n    ".toList
    ++ fault.message)

/-- The command; `file` is what there is under the path of a file. -/
def run (o : Options) (logLevel : Option Text) (file : Except SourceFault Text) : Output :=
  let level := LogLevel.choose o.verbosity logLevel
  match o.source with
  | .expression t => runText o level t
  | .file path =>
    match file with
    | .ok t => runText o level t
    | .error fault => unreadable path fault

end UnionTyping.Cli
