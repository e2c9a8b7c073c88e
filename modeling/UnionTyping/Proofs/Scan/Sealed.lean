/-
  UnionTyping/Proofs/Scan/Sealed.lean
  ===================================
  **Sealed texts** — what every readable piece of source is, types and
  expressions alike: balanced, not beginning with an angle bracket, and without
  a comma or a semicolon at the top level.  A sealed text can stand after any
  other text, and a list of sealed texts falls apart at the separators between
  them and nowhere else.
-/
import UnionTyping.Proofs.Scan.Balance
import UnionTyping.Proofs.Text.Trim
import UnionTyping.Text.Name

namespace UnionTyping.Text

open UnionTyping

def isSeparator (c : Char) : Bool := c == ',' || c == ';'

structure Sealed (t : Text) : Prop extends Balanced t where
  head : ∀ c, t.head? = some c → c ≠ '<'
  separators : Avoids isSeparator t

theorem Balanced.head_ne {t : Text} (h : Balanced t) {c : Char} (hc : t.head? = some c) :
    c ≠ '>' := by
  rintro rfl
  obtain ⟨u, rfl⟩ := List.head?_eq_some_iff.1 hc
  exact absurd (h.nonneg ['>'] ⟨u, rfl⟩ .angle) (by decide)

theorem Sealed.fits {t : Text} (h : Sealed t) (s : Nesting) : s.Fits t :=
  Nesting.fits_of_head fun c hc => ⟨h.head c hc, h.toBalanced.head_ne hc⟩

theorem Sealed.avoids {t : Text} (h : Sealed t) {d : Char} (hd : isSeparator d = true) :
    Avoids (· == d) t := by
  intro l c r he htop
  have hc := h.separators l c r he htop
  simp only [beq_eq_false_iff_ne]
  rintro rfl
  rw [hd] at hc
  cases hc

theorem Sealed.append {t u : Text} (ht : Sealed t) (hu : Sealed u) : Sealed (t ++ u) where
  toBalanced := ht.toBalanced.append hu.toBalanced (hu.fits _)
  head := by
    intro c hc
    cases t with
    | nil => exact hu.head c hc
    | cons d t => exact ht.head c hc
  separators := Avoids.append ht.toBalanced ht.separators hu.separators (hu.fits _)

theorem sealed_of_plain {t : Text} (h : ∀ c ∈ t, isPlain c = true ∧ isSeparator c = false) :
    Sealed t where
  toBalanced := balanced_of_plain fun c hc => (h c hc).1
  head := by
    rintro c hc rfl
    exact absurd (h '<' (List.mem_of_head? hc)).1 (by decide)
  separators := avoids_of_forall fun c hc => (h c hc).2

theorem sealed_nil : Sealed [] := sealed_of_plain fun c hc => by cases hc

theorem sealed_group {b : Bracket} {t : Text} (h : Balanced t) (hb : b ≠ .angle) :
    Sealed (b.opening :: (t ++ [b.closing])) where
  toBalanced := h.group (closesAfter_of_ne hb)
  head := by
    intro c hc
    obtain rfl := Option.some.inj hc
    cases b <;> first | exact absurd rfl hb | decide
  separators := avoids_group h (by cases b <;> decide)

theorem sealed_quoted {raw : Text} (h : Chunks raw) : Sealed ('"' :: (raw ++ ['"'])) where
  toBalanced := balanced_quoted h
  head := by
    intro c hc
    obtain rfl := Option.some.inj hc
    decide
  separators := avoids_quoted h (by decide)

theorem isSeparator_of_forall {p : Char → Bool} (hp : p ',' = false ∧ p ';' = false) {c : Char}
    (hc : p c = true) : isSeparator c = false := by
  cases h : isSeparator c with
  | false => rfl
  | true =>
    simp only [isSeparator, Bool.or_eq_true, beq_iff_eq] at h
    rcases h with rfl | rfl
    · exact absurd (hp.1.symm.trans hc) (by decide)
    · exact absurd (hp.2.symm.trans hc) (by decide)

theorem sealed_of_forall {p : Char → Bool} (hp : ∀ d ∈ marks, p d = false)
    (hs : p ',' = false ∧ p ';' = false) {t : Text} (h : ∀ c ∈ t, p c = true) : Sealed t :=
  sealed_of_plain fun c hc => ⟨isPlain_of_forall hp (h c hc), isSeparator_of_forall hs (h c hc)⟩

/-! ### Blank space, names, arrows -/

theorem sealed_of_blank {t : Text} (h : Blank t) : Sealed t :=
  sealed_of_forall (p := isBlank) (by decide) (by decide) h

/-- Blank space neither leads to the top level nor away from it. -/
theorem atTop_scan_blank_iff {s : Nesting} {t : Text} (h : Blank t) :
    (scan s t).atTop = true ↔ s.atTop = true := by
  have hplain : ∀ c ∈ t, isPlain c = true := fun c hc =>
    isPlain_of_forall (p := isBlank) (by decide) (h c hc)
  have hsealed := sealed_of_blank h
  refine ⟨atTop_of_scan_of_plain hplain, fun hs => ?_⟩
  exact hsealed.toBalanced.atTop_scan hs (hsealed.fits s)

theorem atTop_append_blank_iff {t blank : Text} (h : Blank blank) :
    (scan .start (t ++ blank)).atTop = true ↔ (scan .start t).atTop = true := by
  rw [scan_append, atTop_scan_blank_iff h]

theorem atTop_trimEnd_iff {t : Text} :
    (scan .start (trimEnd t)).atTop = true ↔ (scan .start t).atTop = true := by
  obtain ⟨blank, ht, hb⟩ := exists_eq_trimEnd_append t
  rw [← atTop_append_blank_iff (t := trimEnd t) hb, ← ht]

theorem sealed_of_nameChars {t : Text} (h : ∀ c ∈ t, isNameChar c = true) : Sealed t :=
  sealed_of_forall (p := isNameChar) (by decide) (by decide) h

theorem isNameChar_of_isNameStart {c : Char} (h : isNameStart c = true) : isNameChar c = true := by
  simp only [isNameStart, isNameChar, Char.isAlphanum, Bool.or_eq_true] at h ⊢
  rcases h with h | h
  · exact Or.inl (Or.inl h)
  · exact Or.inr h

theorem isBlank_of_isNameChar {c : Char} (h : isNameChar c = true) : isBlank c = false :=
  isBlank_of_forall (p := isNameChar) (by decide) h

theorem isNameChar_of_isBlank {c : Char} (h : isBlank c = true) : isNameChar c = false := by
  cases hc : isNameChar c with
  | false => rfl
  | true =>
    rw [isBlank_of_isNameChar hc] at h
    cases h

/-- Name characters are ASCII characters, so that they can be tried one by one. -/
theorem mem_range_of_isNameChar {c : Char} (h : isNameChar c = true) :
    c ∈ (List.range 123).map Char.ofNat := by
  refine List.mem_map.2 ⟨c.toNat, ?_, Char.ofNat_toNat c⟩
  rw [List.mem_range]
  have hle {z : Char} (hc : decide (c.val ≤ z.val) = true) (hz : z.toNat < 123) : c.toNat < 123 :=
    Nat.lt_of_le_of_lt (show c.val.toNat ≤ z.val.toNat from of_decide_eq_true hc) hz
  have hand {p q : Bool} (hpq : (p && q) = true) : q = true := (Bool.and_eq_true_iff.1 hpq).2
  have hcases : ((c.isUpper || c.isLower) || c.isDigit || c == '_') = true := h
  simp only [Bool.or_eq_true, beq_iff_eq] at hcases
  rcases hcases with ((hc | hc) | hc) | rfl
  · exact hle (z := 'Z') (decide_eq_true (of_decide_eq_true hc).2) (by decide)
  · exact hle (z := 'z') (hand hc) (by decide)
  · exact hle (z := '9') (hand hc) (by decide)
  · decide

theorem isNameChar_of_mem_identifier {t : Text} (h : isIdentifier t = true) :
    ∀ c ∈ t, isNameChar c = true := by
  cases t with
  | nil => simp [isIdentifier] at h
  | cons d t =>
    simp only [isIdentifier, Bool.and_eq_true, List.all_eq_true] at h
    intro c hc
    rcases List.mem_cons.1 hc with rfl | hc
    · exact isNameChar_of_isNameStart h.1
    · exact h.2 c hc

theorem sealed_of_isIdentifier {t : Text} (h : isIdentifier t = true) : Sealed t :=
  sealed_of_nameChars (isNameChar_of_mem_identifier h)

theorem sealed_of_isName {t : Text} (h : isName t = true) : Sealed t :=
  sealed_of_isIdentifier (isIdentifier_of_isName h)

/-- The tip of an arrow does not count as a bracket. -/
theorem balanced_arrow {stem : Char} (h : stem = '~' ∨ stem = '=') : Balanced [stem, '>'] := by
  constructor
  · intro u hu b
    rcases List.prefix_cons_iff.1 hu with rfl | ⟨v, rfl, hv⟩
    · cases b <;> decide
    · rcases List.prefix_cons_iff.1 hv with rfl | ⟨w, rfl, hw⟩
      · rcases h with rfl | rfl <;> cases b <;> decide
      · rw [List.prefix_nil.1 hw]
        rcases h with rfl | rfl <;> cases b <;> decide
  · rcases h with rfl | rfl <;> decide

theorem sealed_arrow {stem : Char} (h : stem = '~' ∨ stem = '=') : Sealed [stem, '>'] where
  toBalanced := balanced_arrow h
  head := by
    intro c hc
    obtain rfl := Option.some.inj hc
    rcases h with rfl | rfl <;> decide
  separators := by
    apply avoids_of_forall
    intro c hc
    rcases List.mem_cons.1 hc with rfl | hc
    · rcases h with rfl | rfl <;> decide
    · rw [List.mem_singleton.1 hc]
      decide

/-! ### Trimming and joining -/

theorem sealed_of_trim {t : Text} (h : Sealed (trim t)) : Sealed t := by
  obtain ⟨l, r, he, hl, hr⟩ := exists_eq_append_trim t
  rw [he]
  exact (sealed_of_blank hl).append (h.append (sealed_of_blank hr))

/-- No arrow has blank space in front of its tip. -/
theorem fits_scan_blank {l : Text} (h : Blank l) (hne : l ≠ []) (s : Nesting) (t : Text) :
    (scan s l).Fits t := by
  apply Nesting.fits_of_previous
  rw [previous_scan hne]
  constructor
  · intro hlast
    exact absurd (h _ (List.mem_of_getLast? hlast)) (by decide)
  · intro hlast
    exact absurd (h _ (List.mem_of_getLast? hlast)) (by decide)

/-- No arrow begins in blank space. -/
theorem fits_of_blank {l : Text} (h : Blank l) (t : Text) : (scan .start l).Fits t := by
  by_cases hnil : l = []
  · subst hnil
    exact Nesting.fits_start _
  · exact fits_scan_blank h hnil _ t

theorem balanced_of_trim {t : Text} (h : Balanced (trim t)) : Balanced t := by
  obtain ⟨l, r, he, hl, hr⟩ := exists_eq_append_trim t
  rw [he]
  exact (sealed_of_blank hl).toBalanced.append
    (h.append (sealed_of_blank hr).toBalanced ((sealed_of_blank hr).fits _)) (fits_of_blank hl _)

/-- Only the first text decides how a list of texts begins. -/
theorem head?_intercalate {d : Char} {t : Text} {ts : List Text} {c : Char}
    (h : ([d].intercalate (t :: ts)).head? = some c) : t.head? = some c ∨ c = d := by
  cases t with
  | nil =>
    cases ts with
    | nil =>
      rw [List.intercalate_singleton] at h
      exact Or.inl h
    | cons u ts =>
      rw [List.intercalate_cons_cons] at h
      exact Or.inr (Option.some.inj h).symm
  | cons e t =>
    rw [List.intercalate_cons_cons_left] at h
    exact Or.inl h

theorem balanced_intercalate {d : Char} (hd : isPlain d = true) {ts : List Text}
    (h : ∀ t ∈ ts, Sealed t) : Balanced ([d].intercalate ts) := by
  have hne := ne_angle_of_isPlain hd
  induction ts with
  | nil => exact balanced_nil
  | cons t ts ih =>
    have ht := h t (List.mem_cons_self ..)
    cases ts with
    | nil =>
      rw [List.intercalate_singleton]
      exact ht.toBalanced
    | cons u ts =>
      have hu : Balanced ([d].intercalate (u :: ts)) :=
        ih fun v hv => h v (List.mem_cons_of_mem _ hv)
      have hsu := h u (List.mem_cons_of_mem _ (List.mem_cons_self ..))
      have hfit : (scan .start [d]).Fits ([d].intercalate (u :: ts)) := by
        apply Nesting.fits_of_head
        intro c hc
        rcases head?_intercalate hc with hc | rfl
        · exact ⟨hsu.head c hc, hsu.toBalanced.head_ne hc⟩
        · exact hne
      have hfd : (scan .start t).Fits ([d] ++ [d].intercalate (u :: ts)) := by
        apply Nesting.fits_of_head
        intro c hc
        obtain rfl := Option.some.inj hc
        exact hne
      rw [List.intercalate_cons_cons, List.append_assoc]
      exact ht.toBalanced.append ((balanced_singleton hd).append hu hfit) hfd

end UnionTyping.Text
