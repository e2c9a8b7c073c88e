/-
  UnionTyping/Grammar/Fault.lean
  ==============================
  **Faults** — why a text cannot be read.  A form either declines a text
  (`noMatch`), so that the next form is tried, or rejects it (`invalid`), or
  finds that it has no type (`type`).  A rejection names the rejected fragment,
  the fault and the innermost form in which it arose.
-/
import UnionTyping.Types.TypeError

namespace UnionTyping

/-- What is wrong with a text. -/
inductive Fault where
  | emptyExpression
  | unrecognized
  | unterminatedStatement
  /-- A numeral without a value, because its digits are of another script. -/
  | numeralWithoutValue
  | reservedReference
  | emptyType
  | typeNameExpected
  | malformedTypeArguments
  | genericName
  /-- `...` without a parameter before it. -/
  | loneVariadic
  | parameterName (name : Text)
  | misplacedVariadic
  | variadicWithoutList
  | resultMismatch (declared body : SourceType)
  | variableName (name : Text)
  | missingInitializer
  | colonExpected
  | valueMismatch (name : Name) (declared value : SourceType)
  | notAssignable
  /-- A fault that a caller's own parser describes. -/
  | other (description : Text)

namespace Fault

def message : Fault → Text
  | emptyExpression => "empty expression".toList
  | unrecognized => "unrecognized expression".toList
  | unterminatedStatement => "statements must be terminated by ';'".toList
  | numeralWithoutValue => "invalid float literal".toList
  | reservedReference => "cannot reference a reserved word".toList
  | emptyType => "empty type".toList
  | typeNameExpected => "expected a type name".toList
  | malformedTypeArguments => "malformed type arguments".toList
  | genericName => "invalid generic name".toList
  | loneVariadic => "`...` needs a parameter".toList
  | parameterName n => "invalid parameter name `".toList ++ n ++ "`".toList
  | misplacedVariadic => "only the last parameter may be variadic".toList
  | variadicWithoutList => "a variadic parameter needs a list type".toList
  | resultMismatch d b =>
    "declared return type ".toList ++ SourceType.text d ++ " but the body is ".toList
      ++ SourceType.text b
  | variableName n => "invalid variable name `".toList ++ n ++ "`".toList
  | missingInitializer => "missing initializer".toList
  | colonExpected => "expected `:` before the type".toList
  | valueMismatch n d v =>
    "`".toList ++ n ++ "` is declared as ".toList ++ SourceType.text d ++ " but assigned ".toList
      ++ SourceType.text v
  | notAssignable => "cannot assign to this".toList
  | other t => t

end Fault

/-- Why a form gives no value for a text. -/
inductive ParseError where
  /-- The text does not have the shape of the form. -/
  | noMatch
  /-- The text has the shape of the form and is malformed. -/
  | invalid (fragment : Text) (fault : Fault) (form : Option Text)
  /-- The text is well-formed and has no type. -/
  | type (error : TypeError)

namespace ParseError

/-- A rejection outside any form. -/
def reject (fragment : Text) (fault : Fault) : ParseError := invalid fragment fault none

/-- The fault, after the form that rejected the text. -/
def reason (fault : Fault) : Option Text → Text
  | some form => form ++ ": ".toList ++ fault.message
  | none => fault.message

def message : ParseError → Text
  | noMatch => "no grammar form matches".toList
  | invalid fragment fault form =>
    "invalid expression `".toList ++ fragment ++ "`: ".toList ++ reason fault form
  | type e => e.message

/-- A rejection is put under the name of `form`, unless it has that of an inner form. -/
def inForm (form : Text) : ParseError → ParseError
  | invalid fragment fault none => invalid fragment fault (some form)
  | e => e

end ParseError

end UnionTyping
