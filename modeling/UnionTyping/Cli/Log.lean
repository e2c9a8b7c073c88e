/-
  UnionTyping/Cli/Log.lean
  ========================
  **The log of a command** — events as lines on the error output.  Each kind of
  event has a level and a target; a line is shown if its level is within the
  chosen one.
-/
import UnionTyping.Types.Trace

namespace UnionTyping

/-- Levels of a log, from silence to everything. -/
inductive LogLevel where
  | off | error | warn | info | debug | trace
  deriving DecidableEq, Repr

namespace LogLevel

def rank : LogLevel → Nat
  | off => 0
  | error => 1
  | warn => 2
  | info => 3
  | debug => 4
  | trace => 5

def name : LogLevel → Text
  | off => "OFF".toList
  | error => "ERROR".toList
  | warn => "WARN".toList
  | info => "INFO".toList
  | debug => "DEBUG".toList
  | trace => "TRACE".toList

/-- The level of that name, in capital or small letters. -/
def ofText? (t : Text) : Option LogLevel :=
  [off, error, warn, info, debug, trace].find? fun level => level.name == t.map Char.toUpper

/-- The level that the command line asks for, else the one that the surroundings
    name, else warnings. -/
def choose (verbosity : Nat) (named : Option Text) : LogLevel :=
  match verbosity with
  | 0 => (named.bind ofText?).getD warn
  | 1 => info
  | 2 => debug
  | _ => trace

end LogLevel

namespace Event

def level : Event → LogLevel
  | formed .. => .trace
  | _ => .debug

/-- The part of the program that an event comes from. -/
def target : Event → Text
  | formed .. => "mlang::parser::grammar".toList
  | sharing _ => "mlang::parser::grammar::lambda".toList
  | bound .. => "mlang::parser::grammar::statement".toList
  | solved .. => "mlang::types::generics".toList
  | rejected .. => "mlang::parser".toList

def message : Event → Text
  | formed depth kind text => List.replicate (2 * depth) ' ' ++ kind ++ " <- ".toList ++ text
  | sharing count =>
    "binding ".toList ++ Nat.toDigits 10 count ++ " parameter(s) into the enclosing scope".toList
  | bound n t => "bound ".toList ++ n ++ " : ".toList ++ SourceType.text t
  | solved g t => "assigned generic ".toList ++ g ++ " := ".toList ++ SourceType.text t
  | rejected fragment reason => "invalid `".toList ++ fragment ++ "`: ".toList ++ reason

/-- The line of an event. -/
def line (e : Event) : Text :=
  '[' :: (e.level.name ++ "] ".toList ++ e.target ++ ": ".toList ++ e.message ++ ['\n'])

end Event

/-- The lines of a trace that a log of that level shows. -/
def logLines (level : LogLevel) (events : List Event) : Text :=
  (events.filter fun e => e.level.rank ≤ level.rank).flatMap Event.line

end UnionTyping
