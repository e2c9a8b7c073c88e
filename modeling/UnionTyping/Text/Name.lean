/-
  UnionTyping/Text/Name.lean
  ==========================
  **Names** — an identifier is an ASCII letter or underscore followed by ASCII
  letters, digits and underscores.  A member may have any identifier as its
  name; a variable, a parameter or a generic may not be called like one of the
  three keywords.

  `runs` lists what stands between the other characters of a text: every name
  that a reader can take out of a text is one of its runs.
-/
import UnionTyping.Text.Basic

namespace UnionTyping.Text

def isNameStart (c : Char) : Bool := c.isAlpha || c == '_'

def isNameChar (c : Char) : Bool := c.isAlphanum || c == '_'

def isIdentifier : Text → Bool
  | [] => false
  | c :: t => isNameStart c && t.all isNameChar

/-- The keywords, which name nothing. -/
def reservedWords : List Name := ["var".toList, "const".toList, "return".toList]

def isReserved (t : Text) : Bool := reservedWords.contains t

/-- A name for a variable, a parameter or a generic. -/
def isName (t : Text) : Bool := isIdentifier t && !isReserved t

theorem isIdentifier_of_isName {t : Text} (h : isName t = true) : isIdentifier t = true := by
  simp only [isName, Bool.and_eq_true] at h
  exact h.1

/-- The runs of name characters between all other characters, empty ones
    included. -/
def runs : Text → List Text
  | [] => [[]]
  | c :: t =>
    if isNameChar c then
      match runs t with
      | [] => [[c]]
      | w :: ws => (c :: w) :: ws
    else [] :: runs t

end UnionTyping.Text
