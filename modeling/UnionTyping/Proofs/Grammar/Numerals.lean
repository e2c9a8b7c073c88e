/-
  UnionTyping/Proofs/Grammar/Numerals.lean
  ========================================
  **Numbers as source** — a literal may have any number of digits, while what is
  printed for it is the double nearest to it.  In range its text is the same number
  again, in every environment; from `2 ^ 1024 - 2 ^ 970` on the double is infinite,
  and `inf` and `-inf` are no literals: the first is a name, the second has no form.
-/
import UnionTyping.Proofs.Grammar.Composition
import UnionTyping.Proofs.Grammar.RoundTrip
import UnionTyping.Proofs.Number.Range

namespace UnionTyping

open Text

section

variable {t : Text} {env : TypeEnv} {x : Double}

/-- A text is a number by its digits, whatever the environment. -/
theorem reads_number_iff {env' : TypeEnv} : Reads t env (.number x) env'
    ↔ isNumeral (stripParens t) = true
      ∧ Double.ofPositional? (stripParens t) = some x ∧ env' = env := by
  constructor
  · intro h
    obtain ⟨k, hk, hf⟩ := reads_iff.1 h
    cases hf with
    | number hx => exact ⟨fits_of_formShape? hk, hx, rfl⟩
  · rintro ⟨hn, hx, rfl⟩
    exact reads_iff.2 ⟨_, formShape?_of_isNumeral hn, .number hx⟩

theorem read_number_iff : (read t env).result = .ok (.number x)
    ↔ isNumeral (stripParens t) = true
      ∧ Double.ofPositional? (stripParens t) = some x := by
  constructor
  · intro h
    obtain ⟨hn, hx, _⟩ := reads_number_iff.1 (reads_of_read h rfl)
    exact ⟨hn, hx⟩
  · rintro ⟨hn, hx⟩
    exact (read_of_reads (reads_number_iff.2 ⟨hn, hx, rfl⟩)).1

/-- The word for an infinite number is no literal. -/
theorem read_text_infinite (negative : Bool) (env : TypeEnv) (y : Double) :
    (read (Node.number (.infinite negative)).text env).result ≠ .ok (.number y) := by
  intro h
  have hword : Double.ofPositional? (stripParens (Node.number (.infinite negative)).text)
      = none := by
    cases negative <;> decide +kernel
  rw [(read_number_iff.1 h).2] at hword
  cases hword

/-- The text of a number that was read is read as that number, in every environment,
    if the literal was in range; out of range it is a number in no environment. -/
theorem read_text_of_number (t : Text) (env : TypeEnv) (x : Double)
    (h : (read t env).result = .ok (.number x)) :
    (isInRange (stripParens t) = true →
        ∀ env', Answers (Node.number x).text env' (.number x) env')
      ∧ (isInRange (stripParens t) = false →
        ∀ env' y, (read (Node.number x).text env').result ≠ .ok (.number y)) := by
  obtain ⟨_, hx⟩ := read_number_iff.1 h
  have hfinite := isFinite_iff_isInRange hx
  constructor
  · intro hrange env'
    exact read_of_reads (reads_number (hfinite.2 hrange))
  · intro hrange env' y
    cases x with
    | nan => exact absurd rfl (ne_nan_of_ofPositional? hx)
    | infinite negative => exact read_text_infinite negative env' y
    | finite negative quanta hr =>
      rw [hfinite.1 rfl] at hrange
      cases hrange

/-- A literal of 309 digits is still in range. -/
theorem read_text_of_number_long :
    ∃ x, (read ('(' :: '-' :: '1' :: (List.replicate 308 '0' ++ [')'])) .empty).result
        = .ok (.number x)
      ∧ ∀ env, Answers (Node.number x).text env (.number x) env := by
  have hliteral : isNumeral (stripParens
      ('(' :: '-' :: '1' :: (List.replicate 308 '0' ++ [')']))) = true := by decide +kernel
  have hdigits : (Double.ofPositional? (stripParens
      ('(' :: '-' :: '1' :: (List.replicate 308 '0' ++ [')'])))).isSome = true := by
    decide +kernel
  obtain ⟨x, hx⟩ := Option.isSome_iff_exists.1 hdigits
  refine ⟨x, read_number_iff.2 ⟨hliteral, hx⟩, ?_⟩
  have hback := read_text_of_number _ .empty x (read_number_iff.2 ⟨hliteral, hx⟩)
  exact hback.1 (by decide +kernel)

/-- With one digit more a literal is infinite, and prints what is no literal. -/
theorem infinite_of_long_literal :
    (read ('-' :: '1' :: List.replicate 309 '0') .empty).result = .ok (.number (.infinite true))
      ∧ (Node.number (.infinite true)).text = "-inf".toList
      ∧ ∀ y, (read (Node.number (.infinite true)).text .empty).result ≠ .ok (.number y) :=
  ⟨read_number_iff.2 (by decide +kernel), rfl, read_text_infinite true .empty⟩

end

end UnionTyping
