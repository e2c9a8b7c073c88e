/-
  UnionTyping/Proofs/Scan/Words.lean
  ==================================
  **The words of a text** are its maximal runs of name characters.  A character
  that is no name character parts them (`words_append_cons`), and everything that
  a reader splits a text at is such a character: blanks, brackets, separators and
  signs.  So whatever a cut, a group or trimming leaves has only words of the
  text that it was cut from (`Within`), and a piece that is a name is one of
  them.
-/
import UnionTyping.Proofs.Scan.Groups

namespace UnionTyping

namespace Text

/-! ### Words -/

/-- The maximal runs of name characters. -/
def words (t : Text) : List Text := (runs t).filter fun w => !w.isEmpty

theorem runs_append_cons {c : Char} (hc : isNameChar c = false) (t u : Text) :
    runs (t ++ c :: u) = runs t ++ runs u := by
  induction t with
  | nil => simp [runs, hc]
  | cons d t ih =>
    by_cases hd : isNameChar d = true
    · have hne : runs t ≠ [] := by
        cases t with
        | nil => simp [runs]
        | cons e t =>
          simp only [runs]
          split
          · split <;> simp
          · simp
      obtain ⟨w, ws, hw⟩ := List.exists_cons_of_ne_nil hne
      simp only [List.cons_append, runs, ih, hw, if_pos hd]
    · simp only [List.cons_append, runs, ih, if_neg hd]

@[simp] theorem words_nil : words [] = [] := rfl

theorem words_append_cons {c : Char} (hc : isNameChar c = false) (t u : Text) :
    words (t ++ c :: u) = words t ++ words u := by
  rw [words, runs_append_cons hc, List.filter_append]
  rfl

theorem words_cons {c : Char} (hc : isNameChar c = false) (t : Text) : words (c :: t) = words t :=
  words_append_cons hc [] t

theorem words_append_of_forall {u : Text} (hu : ∀ c ∈ u, isNameChar c = false) (t : Text) :
    words (t ++ u) = words t := by
  induction u generalizing t with
  | nil => rw [List.append_nil]
  | cons c u ih =>
    rw [List.forall_mem_cons] at hu
    have hnil : words u = [] := by simpa using ih hu.2 []
    rw [words_append_cons hu.1, hnil, List.append_nil]

theorem words_of_append_of_forall {t : Text} (ht : ∀ c ∈ t, isNameChar c = false) (u : Text) :
    words (t ++ u) = words u := by
  induction t with
  | nil => rfl
  | cons c t ih =>
    rw [List.forall_mem_cons] at ht
    rw [List.cons_append, words_cons ht.1, ih ht.2]

/-- A name is one word. -/
theorem words_of_isIdentifier {x : Name} (hx : isIdentifier x = true) : words x = [x] := by
  have hruns : ∀ t : Text, (∀ c ∈ t, isNameChar c = true) → runs t = [t] := by
    intro t ht
    induction t with
    | nil => rfl
    | cons c t ih =>
      rw [List.forall_mem_cons] at ht
      simp only [runs, ht.1, ih ht.2, if_true]
  have hne : x ≠ [] := by
    rintro rfl
    cases hx
  rw [words, hruns x (isNameChar_of_mem_identifier hx)]
  simp [hne]

/-! ### Texts inside a text -/

/-- Every word of `u` is a word of `t`. -/
def Within (u t : Text) : Prop := words u ⊆ words t

theorem within_refl (t : Text) : Within t t := List.Subset.refl _

theorem Within.trans {t u v : Text} (h : Within t u) (h' : Within u v) : Within t v :=
  List.Subset.trans h h'

theorem Within.mem_words {x : Name} {t : Text} (h : Within x t) (hx : isIdentifier x = true) :
    x ∈ words t := by
  apply h
  rw [words_of_isIdentifier hx]
  exact List.mem_singleton_self x

section

variable {c : Char} {t u : Text}

theorem within_left (hc : isNameChar c = false) (t u : Text) : Within t (t ++ c :: u) := by
  rw [Within, words_append_cons hc]
  exact List.subset_append_left _ _

theorem within_right (hc : isNameChar c = false) (t u : Text) : Within u (t ++ c :: u) := by
  rw [Within, words_append_cons hc]
  exact List.subset_append_right _ _

theorem within_cons (hc : isNameChar c = false) (t : Text) : Within t (c :: t) :=
  within_right hc [] t

theorem Blank.not_isNameChar (h : Blank t) : ∀ c ∈ t, isNameChar c = false :=
  fun c hc => isNameChar_of_isBlank (h c hc)

theorem within_append_blank (hu : Blank u) (t : Text) : Within t (t ++ u) := by
  rw [Within, words_append_of_forall hu.not_isNameChar]
  exact List.Subset.refl _

theorem within_blank_append (hu : Blank u) (t : Text) : Within t (u ++ t) := by
  rw [Within, words_of_append_of_forall hu.not_isNameChar]
  exact List.Subset.refl _

/-! ### Trimming -/

theorem within_trimStart (t : Text) : Within (trimStart t) t := by
  obtain ⟨l, hl, hb⟩ := exists_eq_append_trimStart t
  have h := within_blank_append hb (trimStart t)
  rwa [← hl] at h

theorem within_trimEnd (t : Text) : Within (trimEnd t) t := by
  obtain ⟨r, hr, hb⟩ := exists_eq_trimEnd_append t
  have h := within_append_blank hb (trimEnd t)
  rwa [← hr] at h

theorem within_trim (t : Text) : Within (trim t) t :=
  (within_trimEnd _).trans (within_trimStart t)

/-! ### Brackets -/

theorem isNameChar_opening (b : Bracket) : isNameChar b.opening = false := by cases b <;> decide

theorem isNameChar_closing (b : Bracket) : isNameChar b.closing = false := by cases b <;> decide

variable {b : Bracket} {before inner rest : Text}

theorem within_of_group? (h : group? b t = some (inner, rest)) :
    Within inner t ∧ Within rest t := by
  rw [(eq_of_group? h).1]
  have hcons := within_cons (isNameChar_opening b) (inner ++ b.closing :: rest)
  exact ⟨(within_left (isNameChar_closing b) _ _).trans hcons,
    (within_right (isNameChar_closing b) _ _).trans hcons⟩

theorem within_of_unwrap? (h : unwrap? b t = some inner) : Within inner t := by
  rw [eq_of_unwrap? h]
  exact (within_left (isNameChar_closing b) _ _).trans (within_cons (isNameChar_opening b) _)

theorem within_stripParens (t : Text) : Within (stripParens t) t := by
  fun_induction stripParens t with
  | case1 t u h ih => exact ih.trans ((within_of_unwrap? h).trans (within_trim t))
  | case2 t h => exact within_trim t

theorem within_of_lastGroup? (h : lastGroup? b t = some (before, inner)) :
    Within before t ∧ Within inner t := by
  rw [(eq_of_lastGroup? h).1]
  have hright := within_right (isNameChar_opening b) before (inner ++ [b.closing])
  exact ⟨within_left (isNameChar_opening b) _ _,
    (within_left (isNameChar_closing b) _ _).trans hright⟩

/-! ### Pieces between separators -/

theorem within_of_mem_intercalate {d : Char} (hd : isNameChar d = false) {ts : List Text}
    (hu : u ∈ ts) : Within u ([d].intercalate ts) := by
  induction ts with
  | nil => cases hu
  | cons t ts ih =>
    cases ts with
    | nil =>
      rw [List.mem_singleton.1 hu, List.intercalate_singleton]
      exact within_refl t
    | cons v ts =>
      rw [List.intercalate_cons_cons, List.append_assoc, List.singleton_append]
      rcases List.mem_cons.1 hu with rfl | hu
      · exact within_left hd _ _
      · exact (ih hu).trans (within_right hd _ _)

theorem within_of_mem_splitTop {d : Char} (hd : isNameChar d = false) (hu : u ∈ splitTop d t) :
    Within u t := by
  have h := within_of_mem_intercalate hd hu
  rwa [intercalate_splitTop] at h

theorem within_of_mem_commaItems (hu : u ∈ commaItems t) : Within u t := by
  unfold commaItems at hu
  split at hu
  · cases hu
  · exact within_of_mem_splitTop (by decide) hu

end

end Text

end UnionTyping
