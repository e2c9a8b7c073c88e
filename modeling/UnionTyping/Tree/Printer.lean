/-
  UnionTyping/Tree/Printer.lean
  =============================
  **Canonical source** — the text of a tree, on one line and without optional
  blanks, except around the equals sign of declarations and assignments.  A
  callee or a parent stands without parentheses only if it ends like a name or a
  call; everything else is put into parentheses there, so that the text falls
  apart in the same places when it is read again.
-/
import UnionTyping.Number.Writing
import UnionTyping.Text.Quoted
import UnionTyping.Tree.Node

namespace UnionTyping

open Text

namespace LambdaHead

/-- What stands before the body. -/
def text (h : LambdaHead) : Text :=
  (if h.generics.isEmpty then [] else '[' :: ([','].intercalate h.generics ++ [']']))
    ++ '(' :: ([','].intercalate (h.params.map Parameter.text)
      ++ (if h.variadic then ['.', '.', '.'] else []) ++ [')'])
    ++ (if h.explicit then ':' :: SourceType.text h.result else [])
    ++ (if h.ownScope then ['=', '>'] else ['~', '>'])

end LambdaHead

/-- The statements of a body: one alone, several with a semicolon after each. -/
def bodyText : List Text → Text
  | [] => []
  | [t] => t
  | ts => ts.flatMap (· ++ [';'])

/-- It can stand directly before `(` and `.`. -/
def Node.isOperand : Node → Bool
  | .var _ | .call .. | .member .. | .reference _ => true
  | _ => false

/-- The text of a node where a callee or a parent stands. -/
def operandText (n : Node) (t : Text) : Text := if n.isOperand then t else '(' :: (t ++ [')'])

mutual

/-- The canonical source of a node. -/
def Node.text : Node → Text
  | .number x => x.text
  | .string t => '"' :: (escape t ++ ['"'])
  | .reference n => '&' :: n
  | .list es => '\x7b' :: ([','].intercalate (Node.texts es) ++ ['\x7d'])
  | .lambda h body => h.text ++ '\x7b' :: (bodyText (Node.texts body) ++ ['\x7d'])
  | .var n => n
  | .call f as gs =>
    operandText f (Node.text f)
      ++ (if gs.isEmpty then [] else '<' :: ([','].intercalate (SourceType.texts gs) ++ ['>']))
      ++ '(' :: ([','].intercalate (Node.texts as) ++ [')'])
  | .member p n => operandText p (Node.text p) ++ '.' :: n
  | .declaration c n d _ v =>
    (if c then "const ".toList else "var ".toList) ++ n
      ++ (match d with
          | some t => ':' :: SourceType.text t
          | none => [])
      ++ " = ".toList ++ Node.text v
  | .assignment t v => Target.text t ++ " = ".toList ++ Node.text v
  | .ret none => "return".toList
  | .ret (some v) => "return ".toList ++ Node.text v
  | .invalid t _ _ => t

def Target.text : Target → Text
  | .var n => n
  | .dereference n => '*' :: n
  | .member p n => operandText p (Node.text p) ++ '.' :: n

def Node.texts : List Node → List Text
  | [] => []
  | n :: ns => Node.text n :: Node.texts ns

end

end UnionTyping
