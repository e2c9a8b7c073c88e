/-
  UnionTyping/Reading.lean
  ========================
  **Reading expressions and programs** in a type environment.  There are three
  outcomes: a well-typed node; the invalid node, for text that is malformed or
  whose declared types contradict what was found; and a type error, for
  well-formed text without a type.  Whatever was bound on the way stays bound in
  the environment that a reading leaves.
-/
import UnionTyping.Grammar.Forms

namespace UnionTyping

open Text

/-- An answer, the environment it leaves and the trace of how it came about. -/
structure Reading (α : Type) where
  result : Except TypeError α
  env : TypeEnv
  events : List Event := []

/-- A rejection becomes the invalid node of the whole text; a type error stays
    one. -/
def settle (t : Text) : Except ParseError Node → Traced TypeError Node
  | .ok n => pure n
  | .error (.type e) => .fail e
  | .error .noMatch => pure (.invalid (trim t) (trim t) Fault.unrecognized.message)
  | .error (.invalid fragment fault form) => do
    let reason := ParseError.reason fault form
    .report (.rejected fragment reason)
    return .invalid (trim t) fragment reason

/-- Read one expression. -/
def read (t : Text) (env : TypeEnv) : Reading Node :=
  let run := expression t { env }
  let settled := settle t run.result
  ⟨settled.result, run.state.env, run.events ++ settled.events⟩

/-- Read one expression in the initial environment. -/
def readInitial (t : Text) : Except TypeError Node := (read t .initial).result

/-- Read statements one after the other, up to the first type error. -/
def readAll (env : TypeEnv) : List Text → Reading (List Node)
  | [] => ⟨.ok [], env, []⟩
  | t :: ts =>
    let first := read t env
    match first.result with
    | .error e => ⟨.error e, first.env, first.events⟩
    | .ok n =>
      let others := readAll first.env ts
      ⟨others.result.map (n :: ·), others.env, first.events ++ others.events⟩

/-- The statements of a program: its segments between top-level semicolons,
    without the blank ones and without one semicolon at the end. -/
def statementTexts (t : Text) : List Text :=
  let t := trim t
  (splitTop ';' ((before? [';'] t).getD t)).filter fun segment => !allBlank segment

/-- Read a program. -/
def readProgram (t : Text) (env : TypeEnv) : Reading (List Node) := readAll env (statementTexts t)

end UnionTyping
