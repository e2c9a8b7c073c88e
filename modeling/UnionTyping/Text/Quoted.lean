/-
  UnionTyping/Text/Quoted.lean
  ============================
  **Quoted strings** — a string stands between double quotes; inside, a
  backslash takes the next character with it.  Writing (`escape`) uses five
  escapes; reading (`unescape`) knows the same five and takes any other escaped
  character as itself.

  `unescape_escape`: what is written reads back.
  `quoted?_eq_some_iff` (with `Chunks`): `quoted?` accepts the texts
  `"` chunk ... chunk `"`, where a chunk is a plain character or a backslash with
  the character after it.
-/
import UnionTyping.Text.Basic

namespace UnionTyping.Text

/-! ### Writing and reading the content -/

/-- How a character is written between the quotes. -/
def escapeChar (c : Char) : Text :=
  if c = '"' then ['\\', '"']
  else if c = '\\' then ['\\', '\\']
  else if c = '\n' then ['\\', 'n']
  else if c = '\t' then ['\\', 't']
  else if c = '\r' then ['\\', 'r']
  else [c]

def escape (t : Text) : Text := t.flatMap escapeChar

/-- The character that a backslash followed by `c` stands for. -/
def unescapeChar (c : Char) : Char :=
  if c = 'n' then '\n' else if c = 't' then '\t' else if c = 'r' then '\r' else c

/-- The content of a string whose written content is given; a lone backslash
    at the end stands for itself. -/
def unescape : Text → Text
  | [] => []
  | ['\\'] => ['\\']
  | '\\' :: c :: t => unescapeChar c :: unescape t
  | c :: t => c :: unescape t

theorem unescape_escapeChar_append (c : Char) (t : Text) :
    unescape (escapeChar c ++ t) = c :: unescape t := by
  simp only [escapeChar]
  split
  · subst_vars; rfl
  split
  · subst_vars; rfl
  split
  · subst_vars; rfl
  split
  · subst_vars; rfl
  split
  · subst_vars; rfl
  · next h _ _ _ => simp [unescape, h]

theorem unescape_escape (t : Text) : unescape (escape t) = t := by
  induction t with
  | nil => rfl
  | cons c t ih =>
    rw [escape, List.flatMap_cons, unescape_escapeChar_append]
    exact congrArg (c :: ·) ih

/-! ### Recognizing a quoted string -/

/-- The written content, if the text (what follows an opening quote) has its
    first unescaped quote at its very end. -/
def untilQuote? : Text → Option Text
  | [] => none
  | ['"'] => some []
  | '\\' :: c :: t => (untilQuote? t).map ('\\' :: c :: ·)
  | c :: t => if c = '"' ∨ c = '\\' then none else (untilQuote? t).map (c :: ·)

/-- The written content of a text that is one quoted string. -/
def quoted? : Text → Option Text
  | '"' :: t => untilQuote? t
  | _ => none

/-- Written content: plain characters, and backslashes with a character each. -/
inductive Chunks : Text → Prop where
  | nil : Chunks []
  | plain {c t} : c ≠ '"' → c ≠ '\\' → Chunks t → Chunks (c :: t)
  | escaped {c t} : Chunks t → Chunks ('\\' :: c :: t)

theorem untilQuote?_eq_some_iff {t raw : Text} :
    untilQuote? t = some raw ↔ t = raw ++ ['"'] ∧ Chunks raw := by
  constructor
  · intro h
    fun_induction untilQuote? t generalizing raw with
    | case1 => simp at h
    | case2 => simp at h; subst h; exact ⟨rfl, .nil⟩
    | case3 c t ih =>
      obtain ⟨r, hr, rfl⟩ := Option.map_eq_some_iff.1 h
      obtain ⟨rfl, hc⟩ := ih hr
      exact ⟨rfl, .escaped hc⟩
    | case4 => simp at h
    | case5 c t _ _ hc ih =>
      obtain ⟨r, hr, rfl⟩ := Option.map_eq_some_iff.1 h
      obtain ⟨rfl, hk⟩ := ih hr
      simp only [not_or] at hc
      exact ⟨rfl, .plain hc.1 hc.2 hk⟩
  · rintro ⟨rfl, hc⟩
    induction hc with
    | nil => rfl
    | @plain c t hq hb _ ih => simp [untilQuote?, hq, hb, ih]
    | escaped _ ih => simp [untilQuote?, ih]

theorem quoted?_eq_some_iff {t raw : Text} :
    quoted? t = some raw ↔ t = '"' :: (raw ++ ['"']) ∧ Chunks raw := by
  unfold quoted?
  split
  · simp [untilQuote?_eq_some_iff]
  · next h =>
    constructor
    · simp
    · rintro ⟨rfl, _⟩; exact absurd rfl (h _)

end UnionTyping.Text
