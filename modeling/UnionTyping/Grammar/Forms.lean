/-
  UnionTyping/Grammar/Forms.lean
  ==============================
  **The ten forms of an expression.**

      call        callee ['<' types '>'] '(' arguments ')'
      literal     number | string | '&' name
      list        '{' elements '}'
      lambda      ['[' generics ']'] '(' params ')' [':' type] ('=>' | '~>') '{' body '}'
      short       '[' expression ']'
      member      parent '.' name
      return      'return' [expression]
      declaration ('var' | 'const') name [':' type] '=' expression
      assignment  (name | '*' name | member) '=' expression
      variable    name

  Each form is a parser of trimmed, non-empty texts; those with expressions
  inside take the parser of the inner ones as their first argument.  A form
  declines a text before it touches the state.
-/
import UnionTyping.Grammar.Parser
import UnionTyping.Grammar.Shape
import UnionTyping.Grammar.Signature

namespace UnionTyping

open Text ParseM

namespace Form

/-! ### Sequences -/

/-- Expressions separated by commas. -/
def expressions (sub : Parser Node) (t : Text) : ParseM (List Node) := (commaItems t).mapM sub

/-- The statements of a body.  One statement needs no semicolon; of several, each
    has one after it, so that nothing follows the last semicolon. -/
def statements (sub : Parser Node) (t : Text) : ParseM (List Node) :=
  let t := trim t
  if t.isEmpty then pure []
  else
    let segments := splitTop ';' t
    let terminated := segments.dropLast
    let last := segments.getLast?.getD []
    if terminated.isEmpty then do return [← sub last]
    else if !allBlank last then reject last .unterminatedStatement
    else terminated.mapM sub

/-! ### Calls and members -/

def call (sub : Parser Node) : Parser Node := fun t =>
  match callShape? t with
  | none => fail .noMatch
  | some shape =>
    if !isOperandText shape.caller then fail .noMatch
    else do
      let callee ← sub shape.caller
      let generics ← ofExcept ((commaItems shape.generics).mapM parseType)
      let arguments ← expressions sub shape.arguments
      return .call callee arguments generics

/-- A parent and a member's name. -/
def memberParts (sub : Parser Node) (t : Text) : ParseM (Node × Name) :=
  match memberShape? t with
  | none => fail .noMatch
  | some (parent, name) =>
    if !isOperandText parent then fail .noMatch
    else do return (← sub parent, name)

def member (sub : Parser Node) : Parser Node := fun t => do
  let (parent, name) ← memberParts sub t
  return .member parent name

/-! ### Literals, lists and variables -/

def number : Parser Node := fun t =>
  if !isNumeral t then fail .noMatch
  else match Double.ofPositional? t with
    | some x => pure (.number x)
    | none => reject t .numeralWithoutValue

def string : Parser Node := fun t =>
  match quoted? t with
  | none => fail .noMatch
  | some raw => pure (.string (unescape raw))

def reference : Parser Node := fun t =>
  match referenceShape? t with
  | none => fail .noMatch
  | some name => if isName name then pure (.reference name) else reject t .reservedReference

def literal : Parser Node := (number.or string).or reference

def list (sub : Parser Node) : Parser Node := fun t =>
  match unwrap? .curly t with
  | none => fail .noMatch
  | some inner => do return .list (← expressions sub inner)

def var : Parser Node := fun t =>
  if isName t then pure (.var t) else fail .noMatch

/-! ### Lambdas -/

/-- Bind the parameters, read the body and find its type. -/
def lambdaBody (sub : Parser Node) (params : List Parameter) (body : Text) :
    ParseM (List Node × SourceType) := do
  modifyEnv (·.bindParameters params)
  let body ← statements sub body
  let type ← typing fun env => typeOfBody env body
  return (body, type)

/-- The body of a lambda with a scope of its own leaves no bindings; the body of
    one without binds its parameters in the enclosing scope. -/
def scopedBody (sub : Parser Node) (ownScope : Bool) (params : List Parameter) (body : Text) :
    ParseM (List Node × SourceType) :=
  if ownScope then isolated (lambdaBody sub params body)
  else do
    report (.sharing params.length)
    lambdaBody sub params body

def lambda (sub : Parser Node) : Parser Node := fun t =>
  match lambdaShape? t with
  | none => fail .noMatch
  | some shape => do
    let generics ← ofExcept (genericNames shape.generics)
    let (params, variadic) ← ofExcept (parseParameters shape.params)
    let declared ← ofExcept (shape.result.mapM parseType)
    atomically do
      let (body, inferred) ← scopedBody sub shape.ownScope params shape.body
      let head (type : SourceType) : LambdaHead :=
        { generics, params, result := type, explicit := declared.isSome,
          ownScope := shape.ownScope, isPure := false, variadic }
      match declared with
      | none => return .lambda (head inferred) body
      | some type =>
        if type == inferred then return .lambda (head type) body
        else reject t (.resultMismatch type inferred)

/-- The short form: a lambda without parameters, in the enclosing scope. -/
def short (sub : Parser Node) : Parser Node := fun t =>
  match unwrap? .square t with
  | none => fail .noMatch
  | some inner => do
    let body ← sub inner
    let type ← typing fun env => typeOf env body
    return .lambda
      { generics := [], params := [], result := type, explicit := false,
        ownScope := false, isPure := false, variadic := false } [body]

/-! ### Statements -/

def giveBack (sub : Parser Node) : Parser Node := fun t =>
  match returnShape? t with
  | none => fail .noMatch
  | some none => pure (.ret none)
  | some (some value) => do return .ret (some (← sub value))

/-- The type written between a declared name and the equals sign. -/
def writtenType (t : Text) : Except ParseError (Option SourceType) :=
  let t := trim t
  if t.isEmpty then .ok none
  else match after? [':'] t with
    | none => .error (.reject t .colonExpected)
    | some type => do return some (← parseType type)

/-- A declaration from its name, its written type and the text of its value; `t`
    is its whole text.  With a written type the value may refer to the name. -/
def declare (sub : Parser Node) (t : Text) (constant : Bool) (name : Name)
    (declared : Option SourceType) (value : Text) : ParseM Node := do
  match declared with
  | some type => modifyEnv (·.insert name type)
  | none => pure ()
  let value ← sub value
  let inferred ← typing fun env => typeOf env value
  let type ← match declared with
    | none => pure inferred
    | some type =>
      if type == inferred then pure type else reject t (.valueMismatch name type inferred)
  report (.bound name type)
  modifyEnv (·.insert name type)
  return .declaration constant name declared type value

def declaration (sub : Parser Node) : Parser Node := fun t =>
  match declarationShape? t with
  | none => fail .noMatch
  | some (constant, rest) =>
    let name := rest.takeWhile isNameChar
    if !isName name then reject t (.variableName name)
    else match cutAssignment (trimStart (rest.dropWhile isNameChar)) with
      | none => reject t .missingInitializer
      | some (before, value) => do
        let declared ← ofExcept (writtenType before)
        atomically (declare sub t constant name declared value)

/-- What stands before the equals sign of an assignment. -/
def target (sub : Parser Node) (t : Text) : ParseM Target :=
  let t := stripParens t
  match dereferenceShape? t with
  | some name => pure (.dereference name)
  | none =>
    if isName t then pure (.var t)
    else
      (do let (parent, name) ← memberParts sub t; return Target.member parent name).orReject
        t .notAssignable

def assignment (sub : Parser Node) : Parser Node := fun t =>
  match cutAssignment t with
  | none => fail .noMatch
  | some (before, after) => do
    let target ← target sub before
    let value ← sub after
    let node := Node.assignment target value
    let _ ← typing fun env => typeOf env node
    return node

end Form

/-! ### Expressions -/

/-- The forms in the order in which they are tried. -/
def forms (sub : Parser Node) : List (Parser Node) :=
  [(Form.call sub).label "call".toList,
   Form.literal,
   (Form.list sub).label "list".toList,
   (Form.lambda sub).label "lambda".toList,
   (Form.short sub).label "simple lambda".toList,
   (Form.member sub).label "member access".toList,
   (Form.giveBack sub).label "return".toList,
   (Form.declaration sub).label "declaration".toList,
   (Form.assignment sub).label "assignment".toList,
   Form.var]

/-- An expression, with a parser for the expressions inside it. -/
def expressionWith (sub : Parser Node) : Parser Node := fun t =>
  let t := stripParens t
  if t.isEmpty then reject t .emptyExpression
  else do
    let node ← (nested (Parser.choice (forms sub) t)).orReject t .unrecognized
    reportFormed node t
    return node

/-- Read an expression. -/
def expression (t : Text) : ParseM Node :=
  expressionWith (fun u => if u.length < t.length then expression u else fail .noMatch) t
termination_by t.length

end UnionTyping
