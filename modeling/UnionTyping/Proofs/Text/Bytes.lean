/-
  UnionTyping/Proofs/Text/Bytes.lean
  ==================================
  **Slices** — a stretch of a text between two byte offsets.  A slice is only there
  if both offsets are boundaries between characters inside the text (`slice?`); the
  offset behind the beginning of a text is its length in bytes, so each piece of a
  text is the slice between the lengths of what stands before it and up to its end
  (`slice?_append`).
-/
import UnionTyping.Text.Basic

namespace UnionTyping

namespace Text

/-! ### Lengths in bytes -/

@[simp] theorem utf8Length_nil : utf8Length [] = 0 := rfl

@[simp] theorem utf8Length_cons (c : Char) (t : Text) :
    utf8Length (c :: t) = c.utf8Size + utf8Length t := by
  simp [utf8Length]

@[simp] theorem utf8Length_append (t u : Text) :
    utf8Length (t ++ u) = utf8Length t + utf8Length u := by
  simp [utf8Length]

/-- Each character has a byte at least. -/
theorem length_le_utf8Length (t : Text) : t.length ≤ utf8Length t := by
  induction t with
  | nil => exact Nat.zero_le _
  | cons c t ih =>
    have hc : 0 < c.utf8Size := c.utf8Size_pos
    rw [List.length_cons, utf8Length_cons]
    omega

theorem utf8Length_le_of_isInfix {t u : Text} (h : u <:+: t) : utf8Length u ≤ utf8Length t := by
  obtain ⟨l, r, rfl⟩ := h
  rw [utf8Length_append, utf8Length_append]
  omega

/-- Of two beginnings of a text the one with more bytes goes on from the other. -/
theorem prefix_of_utf8Length_le {t u v : Text} (hu : u <+: t) (hv : v <+: t)
    (h : utf8Length u ≤ utf8Length v) : u <+: v := by
  rcases List.prefix_or_prefix_of_prefix hu hv with huv | ⟨w, rfl⟩
  · exact huv
  · have hw : w.length = 0 := by
      have hbytes := length_le_utf8Length w
      rw [utf8Length_append] at h
      omega
    obtain rfl := List.eq_nil_of_length_eq_zero hw
    exact ⟨[], by simp⟩

/-! ### Slices -/

/-- The text between the offsets `i` and `j`, if both are boundaries. -/
def slice? (t : Text) (i j : Nat) : Option Text :=
  if i ≤ j then
    (splitAtByte? i t).bind fun (_, rest) => (splitAtByte? (j - i) rest).map Prod.fst
  else none

@[simp] theorem splitAtByte?_utf8Length_append (l r : Text) :
    splitAtByte? (utf8Length l) (l ++ r) = some (l, r) := by
  induction l with
  | nil => cases r <;> rfl
  | cons c l ih =>
    have hc : 0 < c.utf8Size := c.utf8Size_pos
    obtain ⟨n, hn⟩ := Nat.exists_eq_add_of_lt (Nat.add_pos_left hc (utf8Length l))
    rw [Nat.zero_add] at hn
    have hle : c.utf8Size ≤ n + 1 := by omega
    have hrest : n + 1 - c.utf8Size = utf8Length l := by omega
    rw [utf8Length_cons, hn, List.cons_append, splitAtByte?, if_pos hle, hrest, ih]
    rfl

theorem splitAtByte?_eq_some_iff {n : Nat} {t l r : Text} :
    splitAtByte? n t = some (l, r) ↔ t = l ++ r ∧ utf8Length l = n := by
  refine ⟨append_of_splitAtByte?, ?_⟩
  rintro ⟨rfl, rfl⟩
  exact splitAtByte?_utf8Length_append l r

theorem slice?_append (l u r : Text) :
    slice? (l ++ (u ++ r)) (utf8Length l) (utf8Length l + utf8Length u) = some u := by
  rw [slice?, if_pos (Nat.le_add_right _ _), splitAtByte?_utf8Length_append, Option.bind_some,
    Nat.add_sub_cancel_left]
  simp

theorem slice?_eq_some_iff {t u : Text} {i j : Nat} :
    slice? t i j = some u
      ↔ ∃ l r, t = l ++ (u ++ r) ∧ i = utf8Length l ∧ j = utf8Length l + utf8Length u := by
  constructor
  · intro h
    unfold slice? at h
    split at h
    · next hij =>
      obtain ⟨⟨l, rest⟩, hl, hu⟩ := Option.bind_eq_some_iff.1 h
      obtain ⟨⟨v, r⟩, hv, hvu⟩ := Option.map_eq_some_iff.1 hu
      obtain rfl : v = u := hvu
      obtain ⟨rfl, rfl⟩ := splitAtByte?_eq_some_iff.1 hl
      obtain ⟨rfl, hlength⟩ := splitAtByte?_eq_some_iff.1 hv
      exact ⟨l, r, rfl, rfl, by omega⟩
    · cases h
  · rintro ⟨l, r, rfl, rfl, rfl⟩
    exact slice?_append l u r

section

variable {t l u r : Text}

/-- What stands at the beginning of a text. -/
theorem slice?_left (h : t = l ++ r) : slice? t 0 (utf8Length l) = some l := by
  have hs := slice?_append [] l r
  rwa [utf8Length_nil, Nat.zero_add, List.nil_append, ← h] at hs

/-- What stands at the end of a text. -/
theorem slice?_right (h : t = l ++ r) : slice? t (utf8Length l) (utf8Length t) = some r := by
  have hs := slice?_append l r []
  rwa [List.append_nil, ← utf8Length_append, ← h] at hs

/-- What stands in the middle of a text. -/
theorem slice?_middle {i j : Nat} (h : t = l ++ (u ++ r)) (hi : i = utf8Length l)
    (hj : j = utf8Length l + utf8Length u) : slice? t i j = some u :=
  slice?_eq_some_iff.2 ⟨l, r, h, hi, hj⟩

end

end Text

end UnionTyping
