/-
  UnionTyping/Scan/Offset.lean
  ============================
  **Places** — the cuts of a text as offsets in its UTF-8 form.  An offset is
  the length of the piece before the cut; the brackets and the equals sign are
  one byte long.
-/
import UnionTyping.Scan.Cut

namespace UnionTyping.Text

open UnionTyping

/-- Offset of the last top-level `c`. -/
def lastTopIndex? (c : Char) (t : Text) (next : Counting := Nesting.advance) : Option Nat :=
  (cutLastTop c t next).map fun (l, _) => utf8Length l

/-- Offset of the last bracket of kind `b` that is opened from the top level. -/
def lastOpeningIndex? (b : Bracket) (t : Text) (next : Counting := Nesting.advance) :
    Option Nat :=
  (cutLastOpening b t next).map fun (l, _) => utf8Length l

/-- Offset of the first equals sign that assigns. -/
def assignmentIndex? (t : Text) (next : Counting := Nesting.advance) : Option Nat :=
  (cutAssignment t next).map fun (l, _) => utf8Length l

/-- Offset of the bracket that closes the one opened at offset `start`. -/
def groupEnd? (b : Bracket) (t : Text) (start : Nat) (next : Counting := Nesting.advance) :
    Option Nat := do
  let (_, rest) ← splitAtByte? start t
  let (inner, _) ← group? b rest next
  return start + 1 + utf8Length inner

end UnionTyping.Text
