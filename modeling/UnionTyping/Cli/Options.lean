/-
  UnionTyping/Cli/Options.lean
  ============================
  **The arguments of the command.**  Either a file or an expression is given;
  the other arguments are switches, of which only `-v` may be repeated.
-/
import UnionTyping.Text.Basic

namespace UnionTyping.Cli

open UnionTyping Text

/-- What to read. -/
inductive Source where
  | file (path : Text)
  | expression (text : Text)
  deriving DecidableEq

structure Options where
  source : Source
  /-- List every tree. -/
  ast : Bool := false
  /-- Start from an empty environment. -/
  noBuiltins : Bool := false
  /-- Resolve every type against the registered data types. -/
  resolve : Bool := false
  verbosity : Nat := 0
  deriving DecidableEq

/-- One argument. -/
inductive Argument where
  | path (text : Text)
  | expression (text : Text)
  | ast
  | noBuiltins
  | resolve
  | verbose
  deriving DecidableEq

/-- A value that stands in an argument of its own does not look like an option. -/
def isValue (t : Text) : Bool := t.head? != some '-' || t == ['-']

/-- The switches in a cluster such as `vv`; `e` takes the rest of the cluster, or
    the next argument, as its value. -/
def cluster? (next : Option Text) : Text → Option (List Argument × Bool)
  | [] => some ([], false)
  | 'v' :: t => (cluster? next t).map fun (as, used) => (.verbose :: as, used)
  | 'e' :: [] => next.bind fun v => if isValue v then some ([.expression v], true) else none
  | 'e' :: '=' :: t => some ([.expression t], false)
  | 'e' :: t => some ([.expression t], false)
  | _ => none

/-- The arguments of a command line, if each of them is known. -/
def arguments? : List Text → Option (List Argument)
  | [] => some []
  | t :: ts =>
    if t = "--".toList then some (ts.map .path)
    else if t = "--ast".toList then (arguments? ts).map (.ast :: ·)
    else if t = "--no-builtins".toList then (arguments? ts).map (.noBuiltins :: ·)
    else if t = "--resolve".toList then (arguments? ts).map (.resolve :: ·)
    else if t = "--verbose".toList then (arguments? ts).map (.verbose :: ·)
    else if t = "--expr".toList then
      match ts with
      | v :: ts => if isValue v then (arguments? ts).map (.expression v :: ·) else none
      | [] => none
    else match after? "--expr=".toList t with
      | some v => (arguments? ts).map (.expression v :: ·)
      | none =>
        if isValue t then (arguments? ts).map (.path t :: ·)
        else match cluster? ts.head? t.tail with
          | some (as, false) => (arguments? ts).map (as ++ ·)
          | some (as, true) => (arguments? ts.tail).map (as ++ ·)
          | none => none
termination_by ts => ts.length

/-- The source named by the arguments, if it is the only one. -/
def source? (as : List Argument) : Option Source :=
  match as.filterMap fun
    | .path t => some (Source.file t)
    | .expression t => some (Source.expression t)
    | _ => none with
  | [s] => some s
  | _ => none

/-- The options of a command line; `none` if it is used wrongly. -/
def Options.ofArguments? (args : List Text) : Option Options := do
  let as ← arguments? args
  let source ← source? as
  if as.count .ast ≤ 1 ∧ as.count .noBuiltins ≤ 1 ∧ as.count .resolve ≤ 1 then
    some
      { source
        ast := as.contains .ast
        noBuiltins := as.contains .noBuiltins
        resolve := as.contains .resolve
        verbosity := as.count .verbose }
  else none

end UnionTyping.Cli
