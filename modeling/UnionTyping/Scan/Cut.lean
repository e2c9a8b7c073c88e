/-
  UnionTyping/Scan/Cut.lean
  =========================
  **Cutting a text at its own level** — every decision about the shape of an
  expression is a cut: at the last dot, at the last opening parenthesis, at the
  first equals sign, at every comma, where only characters outside strings and
  brackets count.

  All cuts are instances of two: `cutFirst` and `cutLast` split a text around
  the first or last character at which a condition on the nesting holds.  Both
  return genuine pieces (`eq_of_cutFirst`, `eq_of_cutLast`: the text is the
  left piece, the character and the right piece), so whatever is read next is
  shorter than what it was cut from.
-/
import UnionTyping.Scan.Nesting

namespace UnionTyping.Text

open UnionTyping

/-! ### The two general cuts -/

/-- Split around the first character at which `p` holds; `p` sees the nesting
    before the character, the character and what follows it. -/
def cutFirst (p : Nesting → Char → Text → Bool) (s : Nesting) (t : Text)
    (next : Counting := Nesting.advance) : Option (Text × Text) :=
  match t with
  | [] => none
  | c :: t =>
    if p s c t then some ([], t)
    else (cutFirst p (next s c) t next).map fun (l, r) => (c :: l, r)

/-- Split around the last character at which `p` holds. -/
def cutLast (p : Nesting → Char → Bool) (s : Nesting) (t : Text)
    (next : Counting := Nesting.advance) : Option (Text × Text) :=
  match t with
  | [] => none
  | c :: t =>
    match cutLast p (next s c) t next with
    | some (l, r) => some (c :: l, r)
    | none => if p s c then some ([], t) else none

theorem eq_of_cutFirst {p : Nesting → Char → Text → Bool} {s : Nesting} {t l r : Text}
    (h : cutFirst p s t = some (l, r)) :
    ∃ c, t = l ++ c :: r ∧ p (scan s l) c r = true := by
  induction t generalizing s l with
  | nil => simp [cutFirst] at h
  | cons c t ih =>
    simp only [cutFirst] at h
    split at h
    · next hp =>
      obtain ⟨rfl, rfl⟩ := Prod.mk.inj (Option.some.inj h)
      exact ⟨c, rfl, hp⟩
    · obtain ⟨⟨l', r'⟩, hl, he⟩ := Option.map_eq_some_iff.1 h
      obtain ⟨rfl, rfl⟩ := Prod.mk.inj he
      obtain ⟨d, rfl, hp⟩ := ih hl
      exact ⟨d, rfl, hp⟩

theorem eq_of_cutLast {p : Nesting → Char → Bool} {s : Nesting} {t l r : Text}
    (h : cutLast p s t = some (l, r)) :
    ∃ c, t = l ++ c :: r ∧ p (scan s l) c = true := by
  induction t generalizing s l with
  | nil => simp [cutLast] at h
  | cons c t ih =>
    simp only [cutLast] at h
    split at h
    · next l' r' hl =>
      obtain ⟨rfl, rfl⟩ := Prod.mk.inj (Option.some.inj h)
      obtain ⟨d, rfl, hp⟩ := ih hl
      exact ⟨d, rfl, hp⟩
    · split at h
      · next hp =>
        obtain ⟨rfl, rfl⟩ := Prod.mk.inj (Option.some.inj h)
        exact ⟨c, rfl, hp⟩
      · simp at h

theorem length_of_cutFirst {p : Nesting → Char → Text → Bool} {s : Nesting} {t l r : Text}
    (h : cutFirst p s t = some (l, r)) : l.length < t.length ∧ r.length < t.length := by
  obtain ⟨c, rfl, _⟩ := eq_of_cutFirst h
  simp only [List.length_append, List.length_cons]; omega

theorem length_of_cutLast {p : Nesting → Char → Bool} {s : Nesting} {t l r : Text}
    (h : cutLast p s t = some (l, r)) : l.length < t.length ∧ r.length < t.length := by
  obtain ⟨c, rfl, _⟩ := eq_of_cutLast h
  simp only [List.length_append, List.length_cons]; omega

/-! ### Splitting at a delimiter -/

/-- The pieces between the occurrences of `d` outside strings and outside `bs`. -/
def splitOutside (bs : List Bracket) (d : Char) (s : Nesting) (t : Text)
    (next : Counting := Nesting.advance) : List Text :=
  match t with
  | [] => [[]]
  | c :: t =>
    let pieces := splitOutside bs d (next s c) t next
    if c = d ∧ s.atTopOf bs then [] :: pieces
    else match pieces with
      | [] => [[c]]
      | p :: ps => (c :: p) :: ps

/-- The pieces of a text between its top-level occurrences of `d`. -/
def splitTop (d : Char) (t : Text) (next : Counting := Nesting.advance) : List Text :=
  splitOutside Bracket.all d .start t next

theorem splitOutside_ne_nil (bs : List Bracket) (d : Char) (s : Nesting) (t : Text) :
    splitOutside bs d s t ≠ [] := by
  cases t with
  | nil => simp [splitOutside]
  | cons c t =>
    simp only [splitOutside]
    split
    · simp
    · split <;> simp

theorem intercalate_splitOutside (bs : List Bracket) (d : Char) (s : Nesting) (t : Text) :
    [d].intercalate (splitOutside bs d s t) = t := by
  induction t generalizing s with
  | nil => simp [splitOutside, List.intercalate]
  | cons c t ih =>
    have hne := splitOutside_ne_nil bs d (s.advance c) t
    have ih := ih (s.advance c)
    simp only [splitOutside]
    match hp : splitOutside bs d (s.advance c) t with
    | [] => exact absurd hp hne
    | p :: ps =>
      rw [hp] at ih
      split
      · next hd =>
        obtain ⟨rfl, _⟩ := hd
        rw [← ih]; simp [List.intercalate, List.intersperse]
      · rw [← ih]
        cases ps <;> simp [List.intercalate, List.intersperse]

/-- No piece is longer than the text, and a piece is shorter if it is not alone. -/
theorem length_of_mem_splitOutside {bs : List Bracket} {d : Char} {s : Nesting} {t p : Text}
    (h : p ∈ splitOutside bs d s t) :
    p.length + (splitOutside bs d s t).length ≤ t.length + 1 := by
  induction t generalizing s p with
  | nil => simp_all [splitOutside]
  | cons c t ih =>
    simp only [splitOutside] at h ⊢
    have hne := splitOutside_ne_nil bs d (s.advance c) t
    match hp : splitOutside bs d (s.advance c) t with
    | [] => exact absurd hp hne
    | q :: qs =>
      have ih' : ∀ p ∈ q :: qs, p.length + (q :: qs).length ≤ t.length + 1 := by
        intro p hm; rw [← hp]; exact ih (by rw [hp]; exact hm)
      have hq := ih' q (by simp)
      simp only [List.length_cons] at hq ih' ⊢
      rw [hp] at h
      split at h
      · next hd =>
        simp only [if_pos hd, List.length_cons]
        rcases List.mem_cons.1 h with rfl | hm
        · simp only [List.length_nil]; omega
        · have := ih' p hm; omega
      · next hd =>
        simp only [if_neg hd, List.length_cons]
        rcases List.mem_cons.1 h with rfl | hm
        · simp only [List.length_cons]; omega
        · have := ih' p (by simp [hm]); omega

theorem length_of_mem_splitTop {d : Char} {t p : Text} (h : p ∈ splitTop d t) :
    p.length ≤ t.length := by
  have h₁ := length_of_mem_splitOutside h
  have h₂ : 0 < (splitOutside Bracket.all d .start t).length :=
    List.length_pos_iff.2 (splitOutside_ne_nil _ _ _ _)
  omega

theorem length_of_mem_splitTop_of_two {d : Char} {t p : Text} (h : p ∈ splitTop d t)
    (h₂ : 1 < (splitTop d t).length) : p.length < t.length := by
  have h₁ := length_of_mem_splitOutside h
  simp only [splitTop] at h₂
  omega

/-! ### Single cuts -/

/-- Around the last top-level `c`. -/
def cutLastTop (c : Char) (t : Text) (next : Counting := Nesting.advance) :
    Option (Text × Text) :=
  cutLast (fun s d => d == c && s.atTop) .start t next

/-- Around the last bracket of kind `b` that is opened from the top level. -/
def cutLastOpening (b : Bracket) (t : Text) (next : Counting := Nesting.advance) :
    Option (Text × Text) :=
  cutLast (fun s c => s.opens c b) .start t next

/-- An equals sign at the top level that belongs to no arrow and no comparison. -/
def isAssignment (s : Nesting) (c : Char) (rest : Text) : Bool :=
  c == '=' && s.atTop
    && !(rest.head? == some '>' || rest.head? == some '=')
    && !(s.previous == some '=' || s.previous == some '!'
      || s.previous == some '<' || s.previous == some '>')

/-- Around the first equals sign that assigns. -/
def cutAssignment (t : Text) (next : Counting := Nesting.advance) : Option (Text × Text) :=
  cutFirst isAssignment .start t next

/-! ### Groups -/

/-- The inside and the rest of a text that begins with an opening `b`: cut at
    the bracket that closes it. -/
def group? (b : Bracket) (t : Text) (next : Counting := Nesting.advance) :
    Option (Text × Text) :=
  match t with
  | [] => none
  | c :: t =>
    if c = b.opening then cutFirst (fun s d _ => s.closes d b) (next Nesting.start c) t next
    else none

/-- From `s` on the depth of `b` never goes below zero, and it ends at zero
    outside strings. -/
def staysBalanced (b : Bracket) (s : Nesting) (t : Text)
    (next : Counting := Nesting.advance) : Bool :=
  match t with
  | [] => !s.inString && s.depth b == 0
  | c :: t => decide (0 ≤ (next s c).depth b) && staysBalanced b (next s c) t next

/-- The brackets of kind `b` of the text match. -/
def isBalanced (b : Bracket) (t : Text) (next : Counting := Nesting.advance) : Bool :=
  staysBalanced b .start t next

/-- The text is exactly one group, such as `(a, b)`.  The inside has to be
    balanced too, which `(9)(9)` is not. -/
def isGroup (b : Bracket) (t : Text) (next : Counting := Nesting.advance) : Bool :=
  match t with
  | [] => false
  | c :: t =>
    c == b.opening && t.getLast? == some b.closing
      && isBalanced b (c :: t) next && isBalanced b t.dropLast next

/-- The text without its first and its last character. -/
def inside (t : Text) : Text := t.tail.dropLast

/-- The inside of a text that is one group. -/
def unwrap? (b : Bracket) (t : Text) : Option Text :=
  if isGroup b t then some (inside t) else none

theorem length_of_unwrap? {b : Bracket} {t u : Text} (h : unwrap? b t = some u) :
    u.length + 2 ≤ t.length := by
  unfold unwrap? at h
  split at h
  · next hg =>
    cases t with
    | nil => simp [isGroup] at hg
    | cons c t =>
      cases t with
      | nil => simp [isGroup] at hg
      | cons d t => simp only [Option.some.injEq, inside] at h; subst h; simp
  · simp at h

theorem length_of_group? {b : Bracket} {t l r : Text} (h : group? b t = some (l, r)) :
    l.length < t.length ∧ r.length < t.length := by
  cases t with
  | nil => simp [group?] at h
  | cons c t =>
    simp only [group?] at h
    split at h
    · have := length_of_cutFirst h
      simp only [List.length_cons]; omega
    · simp at h

/-- A text without its redundant outer parentheses and blanks. -/
def stripParens (t : Text) : Text :=
  match _h : unwrap? .round (trim t) with
  | some u => stripParens u
  | none => trim t
termination_by t.length
decreasing_by
  have h₁ := length_of_unwrap? _h
  have h₂ := length_trim_le t
  omega

theorem length_stripParens_le (t : Text) : (stripParens t).length ≤ t.length := by
  fun_induction stripParens t with
  | case1 t u h ih =>
    have h₁ := length_of_unwrap? h
    have h₂ := length_trim_le t
    omega
  | case2 t h => exact length_trim_le t

/-- The beginning of a text, up to and with the first `c`. -/
def upTo (c : Char) : Text → Text
  | [] => []
  | d :: t => if d = c then [d] else d :: upTo c t

end UnionTyping.Text
