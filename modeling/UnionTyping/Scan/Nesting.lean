/-
  UnionTyping/Scan/Nesting.lean
  =============================
  **Nesting** — what a reader knows between two characters of a text: how deep
  it is inside each of the four kinds of brackets, whether it is inside a quoted
  string, and which character it has just passed.

  Two rules decide what counts as a bracket:
  * inside a string nothing counts, and a backslash takes the next character
    with it, so that `\"` does not end the string;
  * `<` and `>` right after `~` or `=` are the tip of an arrow and do not count.

  `scan` folds one step, `Nesting.advance`, over a text; scanning a text is
  scanning its parts one after the other (`scan_append`).  Depths are integers:
  a closing bracket too many takes its depth below zero.

  A scanner that counts in words of 32 bits takes the step `Nesting.advance32`
  instead.  The cuts of a text have the step as their last argument, and it is
  `advance` if it is left out.  A word wraps around where 2³¹ brackets of a kind
  are open, so both ways to count give the same on every text of fewer than 2³¹
  characters (`Proofs/Scan/Counters.lean`), and need not on a longer one.
-/
import UnionTyping.Text.Basic

namespace UnionTyping

/-! ### Brackets -/

/-- The four kinds of brackets. -/
inductive Bracket where
  /-- `(` `)`: calls, parameter lists and grouping. -/
  | round
  /-- `{` `}`: lists and lambda bodies. -/
  | curly
  /-- `[` `]`: short lambdas, generic names and type arguments. -/
  | square
  /-- `<` `>`: generic arguments of a call. -/
  | angle
  deriving DecidableEq, Repr

namespace Bracket

def all : List Bracket := [round, curly, square, angle]

theorem mem_all (b : Bracket) : b ∈ all := by cases b <;> decide

def opening : Bracket → Char
  | round => '('
  | curly => '\x7b'
  | square => '['
  | angle => '<'

def closing : Bracket → Char
  | round => ')'
  | curly => '\x7d'
  | square => ']'
  | angle => '>'

/-- What a character adds to the depth of a bracket. -/
def weight (b : Bracket) (c : Char) : Int :=
  if c = b.opening then 1 else if c = b.closing then -1 else 0

end Bracket

/-- One depth for each kind of bracket, an integer of any size; `Depths.wrap` is what
    is left of it in a word of 32 bits. -/
structure Depths where
  round : Int := 0
  curly : Int := 0
  square : Int := 0
  angle : Int := 0
  deriving DecidableEq, Repr

namespace Depths

def get (d : Depths) : Bracket → Int
  | .round => d.round
  | .curly => d.curly
  | .square => d.square
  | .angle => d.angle

def add (d : Depths) (w : Bracket → Int) : Depths :=
  ⟨d.round + w .round, d.curly + w .curly, d.square + w .square, d.angle + w .angle⟩

@[simp] theorem get_add (d : Depths) (w : Bracket → Int) (b : Bracket) :
    (d.add w).get b = d.get b + w b := by cases b <;> rfl

theorem ext_get {d e : Depths} (h : ∀ b, d.get b = e.get b) : d = e := by
  cases d; cases e
  simpa [get] using And.intro (h .round) (And.intro (h .curly) (And.intro (h .square) (h .angle)))

/-- The depths as words of 32 bits hold them, in two's complement. -/
def wrap (d : Depths) : Depths :=
  let word (n : Int) : Int := (Int32.ofInt n).toInt
  ⟨word d.round, word d.curly, word d.square, word d.angle⟩

theorem get_wrap (d : Depths) (b : Bracket) : d.wrap.get b = (Int32.ofInt (d.get b)).toInt := by
  cases b <;> rfl

end Depths

/-! ### The state between two characters -/

/-- The nesting at a place in a text. -/
structure Nesting where
  depths : Depths := {}
  inString : Bool := false
  /-- The last character was a backslash that takes the next one with it. -/
  escaped : Bool := false
  /-- The character just passed. -/
  previous : Option Char := none
  deriving DecidableEq, Repr

namespace Nesting

/-- The nesting at the beginning of a text. -/
def start : Nesting := {}

def depth (s : Nesting) (b : Bracket) : Int := s.depths.get b

theorem depth_start (b : Bracket) : start.depth b = 0 := by cases b <;> rfl

/-- `c` is the tip of an arrow here. -/
def isTip (s : Nesting) (c : Char) : Bool :=
  (c == '<' || c == '>') && (s.previous == some '~' || s.previous == some '=')

/-- What `c` adds to the depth of `b` here. -/
def weight (s : Nesting) (c : Char) (b : Bracket) : Int :=
  if s.inString || s.isTip c then 0 else b.weight c

/-- A character opens or closes one bracket at most. -/
theorem weight_bounds (s : Nesting) (c : Char) (b : Bracket) :
    -1 ≤ s.weight c b ∧ s.weight c b ≤ 1 := by
  unfold weight Bracket.weight
  split
  · decide
  · split
    · decide
    · split <;> decide

/-- The nesting after one more character. -/
def advance (s : Nesting) (c : Char) : Nesting where
  depths := s.depths.add (s.weight c)
  inString := if s.inString then s.escaped || c != '"' else c == '"'
  escaped := s.inString && !s.escaped && c == '\\'
  previous := some c

@[simp] theorem depth_advance (s : Nesting) (c : Char) (b : Bracket) :
    (s.advance c).depth b = s.depth b + s.weight c b := by
  simp [depth, advance]

@[simp] theorem previous_advance (s : Nesting) (c : Char) : (s.advance c).previous = some c := rfl

/-- The nesting after one more character, counted in words of 32 bits. -/
def advance32 (s : Nesting) (c : Char) : Nesting :=
  { s.advance c with depths := (s.advance c).depths.wrap }

/-- Outside strings and outside all of `bs`. -/
def atTopOf (s : Nesting) (bs : List Bracket) : Bool :=
  !s.inString && bs.all fun b => s.depth b == 0

/-- Outside strings and outside all brackets. -/
def atTop (s : Nesting) : Bool := s.atTopOf Bracket.all

theorem atTop_iff {s : Nesting} :
    s.atTop = true ↔ s.inString = false ∧ ∀ b, s.depth b = 0 := by
  simp only [atTop, atTopOf, Bool.and_eq_true, Bool.not_eq_eq_eq_not, Bool.not_true,
    List.all_eq_true, beq_iff_eq]
  exact and_congr_right fun _ => ⟨fun h b => h b b.mem_all, fun h b _ => h b⟩

/-- `c` opens a counted `b` from the top level. -/
def opens (s : Nesting) (c : Char) (b : Bracket) : Bool := s.atTop && s.weight c b == 1

/-- `c` closes a counted `b` that was the only one open. -/
def closes (s : Nesting) (c : Char) (b : Bracket) : Bool := s.depth b == 1 && s.weight c b == -1

end Nesting

/-- How a scan goes on at a character. -/
abbrev Counting : Type := Nesting → Char → Nesting

/-! ### Scanning -/

/-- The nesting after `t`, from `s` on. -/
def scan (s : Nesting) (t : Text) : Nesting := t.foldl Nesting.advance s

@[simp] theorem scan_nil (s : Nesting) : scan s [] = s := rfl

@[simp] theorem scan_cons (s : Nesting) (c : Char) (t : Text) :
    scan s (c :: t) = scan (s.advance c) t := rfl

@[simp] theorem scan_append (s : Nesting) (t u : Text) :
    scan s (t ++ u) = scan (scan s t) u := by simp [scan]

/-- One character of a text with the nesting before it. -/
structure Step where
  /-- Offset in bytes. -/
  index : Nat
  before : Nesting
  char : Char

/-- The nesting after the character. -/
def Step.after (s : Step) : Nesting := s.before.advance s.char

/-- The steps of a scan, from `s` on, counting bytes from `i`. -/
def steps (s : Nesting) (i : Nat) : Text → List Step
  | [] => []
  | c :: t => ⟨i, s, c⟩ :: steps (s.advance c) (i + c.utf8Size) t

end UnionTyping
