/-
  UnionTyping/Text/Basic.lean
  ===========================
  **Texts** — a text is the list of its characters.  Every reader of this
  library takes a text apart by finding a character at which it splits, so the
  operations here either remove characters at an end (`trim`, `after?`,
  `before?`) or measure what is left.

  Offsets are counted in UTF-8 bytes (`utf8Length`, `splitAtByte?`); no reader
  depends on them, they only name places in a text for a caller.
-/
namespace UnionTyping

/-- A text, character by character. -/
abbrev Text := List Char

/-- A name, as it stands in a text. -/
abbrev Name := Text

namespace Text

/-! ### Blank space -/

/-- The characters with the property `White_Space`. -/
def isBlank (c : Char) : Bool :=
  let n := c.toNat
  (9 ≤ n && n ≤ 13) || n == 0x20 || n == 0x85 || n == 0xA0 || n == 0x1680
    || (0x2000 ≤ n && n ≤ 0x200A) || n == 0x2028 || n == 0x2029 || n == 0x202F
    || n == 0x205F || n == 0x3000

def trimStart (t : Text) : Text := t.dropWhile isBlank

def trimEnd (t : Text) : Text := (t.reverse.dropWhile isBlank).reverse

/-- The text without the blank space at both ends. -/
def trim (t : Text) : Text := trimEnd (trimStart t)

/-- Nothing but blank space. -/
def allBlank (t : Text) : Bool := (trim t).isEmpty

theorem length_trimStart_le (t : Text) : (trimStart t).length ≤ t.length :=
  (List.dropWhile_suffix _).length_le

theorem length_trimEnd_le (t : Text) : (trimEnd t).length ≤ t.length := by
  have h : (t.reverse.dropWhile isBlank).length ≤ t.reverse.length :=
    (List.dropWhile_suffix _).length_le
  simpa [trimEnd] using h

theorem length_trim_le (t : Text) : (trim t).length ≤ t.length :=
  Nat.le_trans (length_trimEnd_le _) (length_trimStart_le _)

/-! ### The two ends of a text -/

/-- What follows `lead`, if the text begins with it. -/
def after? : Text → Text → Option Text
  | [], t => some t
  | _ :: _, [] => none
  | c :: lead, d :: t => if c = d then after? lead t else none

/-- What stands before `tail`, if the text ends with it. -/
def before? (tail t : Text) : Option Text := (after? tail.reverse t.reverse).map List.reverse

theorem after?_eq_some_iff {lead t r : Text} : after? lead t = some r ↔ t = lead ++ r := by
  induction lead generalizing t with
  | nil => simp [after?]
  | cons c lead ih =>
    cases t with
    | nil => simp [after?]
    | cons d t =>
      by_cases h : c = d
      · subst h; simp [after?, ih]
      · simp [after?, h, Ne.symm h]

theorem before?_eq_some_iff {tail t r : Text} : before? tail t = some r ↔ t = r ++ tail := by
  simp only [before?, Option.map_eq_some_iff, after?_eq_some_iff]
  constructor
  · rintro ⟨u, hu, rfl⟩
    have := congrArg List.reverse hu
    simpa using this
  · rintro rfl
    exact ⟨r.reverse, by simp, by simp⟩

theorem length_of_after? {lead t r : Text} (h : after? lead t = some r) :
    r.length ≤ t.length := by
  simp [after?_eq_some_iff.1 h]

theorem length_of_before? {tail t r : Text} (h : before? tail t = some r) :
    r.length ≤ t.length := by
  simp [before?_eq_some_iff.1 h]

/-! ### Byte offsets -/

-- the empty sum is the numeral, whatever algebra is imported besides
attribute [local instance (high)] Zero.ofOfNat0

/-- Length of the UTF-8 form. -/
def utf8Length (t : Text) : Nat := (t.map Char.utf8Size).sum

/-- The text cut after `n` bytes, if that is a boundary between characters. -/
def splitAtByte? : Nat → Text → Option (Text × Text)
  | 0, t => some ([], t)
  | _ + 1, [] => none
  | n + 1, c :: t =>
    if c.utf8Size ≤ n + 1 then
      (splitAtByte? (n + 1 - c.utf8Size) t).map fun (l, r) => (c :: l, r)
    else none

theorem append_of_splitAtByte? {n : Nat} {t l r : Text} (h : splitAtByte? n t = some (l, r)) :
    t = l ++ r ∧ utf8Length l = n := by
  induction t generalizing n l with
  | nil => cases n <;> simp_all [splitAtByte?, utf8Length]
  | cons c t ih =>
    cases n with
    | zero => simp_all [splitAtByte?, utf8Length]
    | succ n =>
      simp only [splitAtByte?] at h
      split at h
      · obtain ⟨⟨l', r'⟩, hl, he⟩ := Option.map_eq_some_iff.1 h
        obtain ⟨rfl, rfl⟩ := Prod.mk.inj he
        obtain ⟨rfl, hn⟩ := ih hl
        refine ⟨rfl, ?_⟩
        simp only [utf8Length, List.map_cons, List.sum_cons] at hn ⊢
        omega
      · simp at h

end Text

end UnionTyping
