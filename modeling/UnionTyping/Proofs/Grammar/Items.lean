/-
  UnionTyping/Proofs/Grammar/Items.lean
  =====================================
  **Lists of items** — a text between brackets is a list of items between commas.
  Sealed items that are not blank, joined by commas, are read back one by one
  (`commaItems_intercalate`), and a list of readable items is balanced.
-/
import UnionTyping.Grammar.TypeText
import UnionTyping.Proofs.Answers
import UnionTyping.Proofs.Scan.Groups

namespace UnionTyping

open Text

/-! ### Items between commas -/

theorem commaItems_of_not_blank {t : Text} (h : ¬Blank t) : commaItems t = splitTop ',' t := by
  rw [commaItems, if_neg (mt allBlank_iff.1 h)]

theorem balanced_of_commaItems {t : Text} (h : ∀ u ∈ commaItems t, Sealed u) : Balanced t := by
  by_cases ht : Blank t
  · exact (sealed_of_blank ht).toBalanced
  · rw [commaItems_of_not_blank ht] at h
    rw [← intercalate_splitTop ',' t]
    exact balanced_intercalate (by decide) h

theorem commaItems_ne_nil {t : Text} (h : ¬Blank t) : commaItems t ≠ [] := by
  rw [commaItems_of_not_blank h]
  exact splitOutside_ne_nil _ _ _ _

theorem mem_intercalate {d c : Char} {t : Text} {ts : List Text} (ht : t ∈ ts) (hc : c ∈ t) :
    c ∈ [d].intercalate ts := by
  induction ts with
  | nil => cases ht
  | cons u ts ih =>
    cases ts with
    | nil =>
      rw [List.mem_singleton.1 ht] at hc
      rwa [List.intercalate_singleton]
    | cons v ts =>
      rw [List.intercalate_cons_cons]
      rcases List.mem_cons.1 ht with rfl | ht
      · exact List.mem_append_left _ (List.mem_append_left _ hc)
      · exact List.mem_append_right _ (ih ht)

/-- Sealed items are found between the commas that join them. -/
theorem commaItems_intercalate {ts : List Text} (h : ∀ t ∈ ts, Sealed t ∧ ¬Blank t) :
    commaItems ([','].intercalate ts) = ts := by
  by_cases hne : ts = []
  · subst hne
    rfl
  · have hblank : ¬Blank ([','].intercalate ts) := by
      obtain ⟨t, us, rfl⟩ := List.exists_cons_of_ne_nil hne
      intro hb
      exact (h t (List.mem_cons_self ..)).2 fun c hc => hb c (mem_intercalate (List.mem_cons_self ..) hc)
    rw [commaItems_of_not_blank hblank]
    apply splitTop_intercalate (by decide) (by decide) hne
    exact fun t ht => ⟨(h t ht).1.toBalanced, (h t ht).1.avoids (by decide)⟩

end UnionTyping
