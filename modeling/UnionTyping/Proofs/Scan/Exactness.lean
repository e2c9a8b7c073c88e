/-
  UnionTyping/Proofs/Scan/Exactness.lean
  ======================================
  **Groups and pieces are exactly what they are meant to be.**  Two descriptions of
  one group meet: the bracket at which a scan first closes the one it began with, and
  the text whose brackets match on the whole as well as inside.  With integers for
  depths they agree on every text (`groups_exact`).  With counters of 32 bits they
  agree on every text of fewer than 2³¹ characters (`groupEnd?_iff_isGroup`); where
  2³¹ brackets are open the one description meets a depth below zero that the other
  passes by.

  The pieces between separators are cut out of one scan of the whole text, but every
  reader scans its piece anew.  Nothing is lost and nothing is missed by that
  (`splitTop_exact`): behind a separator a scan is where it is at the beginning of a
  text, up to the character just passed, and a separator is the stem of no arrow.
-/
import Mathlib.Data.Set.Subsingleton
import UnionTyping.Proofs.Scan.Counters
import UnionTyping.Proofs.Scan.Slices

namespace UnionTyping.Text

open UnionTyping Nesting

/-! ### Groups between two offsets -/

/-- One group of a text, from the character at an offset to the one at another. -/
structure GroupBetween (b : Bracket) (t : Text) (i e : Nat)
    (next : Counting := Nesting.advance) : Prop where
  /-- Both offsets are boundaries between characters. -/
  start : (splitAtByte? i t).isSome = true
  stop : (splitAtByte? e t).isSome = true
  ordered : i ≤ e
  inText : e < utf8Length t
  group : ∃ u, slice? t i (e + 1) = some u ∧ isGroup b u next = true

section

variable {b : Bracket} {t : Text} {i e : Nat}

theorem exists_inner_of_isGroup (h : isGroup b t = true) :
    ∃ inner, t = b.opening :: (inner ++ [b.closing]) ∧ unwrap? b t = some inner := by
  have ht : unwrap? b t = some (inside t) := if_pos h
  exact ⟨inside t, eq_of_unwrap? ht, ht⟩

theorem groupBetween_of_groupEnd? (h : groupEnd? b t i = some e) : GroupBetween b t i e := by
  obtain ⟨l, tail, inner, rest, hsplit, hgroup, rfl⟩ := groupEnd?_eq_some_iff.1 h
  obtain ⟨rfl, rfl⟩ := append_of_splitAtByte? hsplit
  obtain ⟨htail, _⟩ := eq_of_group? hgroup
  have hstop : splitAtByte? (utf8Length l + 1 + utf8Length inner) (l ++ tail)
      = some (l ++ b.opening :: inner, b.closing :: rest) := by
    refine splitAtByte?_eq_some_iff.2 ⟨by simp [htail], ?_⟩
    simp only [utf8Length_append, utf8Length_cons, utf8Size_opening]
    omega
  have hslice : slice? (l ++ tail) (utf8Length l) (utf8Length l + 1 + utf8Length inner + 1)
      = some (b.opening :: (inner ++ [b.closing])) := by
    refine slice?_middle (l := l) (r := rest) (by simp [htail]) rfl ?_
    simp only [utf8Length_append, utf8Length_cons, utf8Length_nil, utf8Size_opening,
      utf8Size_closing]
    omega
  refine ⟨by rw [hsplit]; rfl, by rw [hstop]; rfl, by omega, ?_, _, hslice,
    isGroup_of_group? hgroup⟩
  simp only [htail, utf8Length_append, utf8Length_cons, utf8Size_opening, utf8Size_closing]
  omega

theorem GroupBetween.groupEnd? (h : GroupBetween b t i e) : groupEnd? b t i = some e := by
  obtain ⟨u, hslice, hu⟩ := h.group
  obtain ⟨l, r, rfl, rfl, hlength⟩ := slice?_eq_some_iff.1 hslice
  obtain ⟨inner, hinner, hunwrap⟩ := exists_inner_of_isGroup hu
  refine groupEnd?_eq_some_iff.2 ⟨l, u ++ r, inner, r, splitAtByte?_utf8Length_append l (u ++ r),
    group?_of_unwrap? hunwrap r, ?_⟩
  simp only [hinner, utf8Length_cons, utf8Length_append, utf8Length_nil, utf8Size_opening,
    utf8Size_closing] at hlength
  omega

/-- A text is one group if the bracket at its beginning is closed by its last character. -/
theorem isGroup_iff_groupEnd? :
    isGroup b t = true ↔ ∃ e, groupEnd? b t 0 = some e ∧ e + 1 = utf8Length t := by
  constructor
  · intro h
    obtain ⟨inner, ht, hunwrap⟩ := exists_inner_of_isGroup h
    have hsplit : splitAtByte? 0 t = some ([], t) := splitAtByte?_eq_some_iff.2 ⟨rfl, rfl⟩
    have hgroup := group?_of_unwrap? hunwrap []
    rw [List.append_nil] at hgroup
    refine ⟨_, groupEnd?_eq_some_iff.2 ⟨[], t, inner, [], hsplit, hgroup, rfl⟩, ?_⟩
    simp only [ht, utf8Length_cons, utf8Length_append, utf8Length_nil, utf8Size_opening,
      utf8Size_closing]
    omega
  · rintro ⟨e, he, hlength⟩
    obtain ⟨u, hslice, hu⟩ := (groupBetween_of_groupEnd? he).group
    have hwhole : slice? t 0 (utf8Length t) = some t := slice?_left (List.append_nil t).symm
    rw [hlength, hwhole] at hslice
    rwa [Option.some.inj hslice]

/-- Between two offsets of a short text both ways to count see the same groups. -/
theorem groupBetween_advance32_iff (ht : t.length < 2 ^ 31) :
    GroupBetween b t i e advance32 ↔ GroupBetween b t i e := by
  have hgroup {u : Text} (hslice : slice? t i (e + 1) = some u) :
      isGroup b u advance32 = isGroup b u := by
    obtain ⟨l, r, rfl, _⟩ := slice?_eq_some_iff.1 hslice
    refine isGroup_advance32 b ?_
    simp only [List.length_append] at ht
    omega
  constructor
  · rintro ⟨hstart, hstop, hordered, hinText, u, hslice, hu⟩
    exact ⟨hstart, hstop, hordered, hinText, u, hslice, (hgroup hslice).symm.trans hu⟩
  · rintro ⟨hstart, hstop, hordered, hinText, u, hslice, hu⟩
    exact ⟨hstart, hstop, hordered, hinText, u, hslice, (hgroup hslice).trans hu⟩

end

/-- The end of a group is where the text from its beginning to there is one group, and
    there is one such place at most. -/
theorem groups_exact (b : Bracket) (t : Text) :
    (∀ i e, groupEnd? b t i = some e ↔ GroupBetween b t i e)
      ∧ (isGroup b t = true ↔ ∃ e, groupEnd? b t 0 = some e ∧ e + 1 = utf8Length t)
      ∧ ∀ i, {e | GroupBetween b t i e}.Subsingleton := by
  refine ⟨fun i e => ⟨groupBetween_of_groupEnd?, GroupBetween.groupEnd?⟩, isGroup_iff_groupEnd?,
    ?_⟩
  intro i e h e' h'
  have hends : some e = some e' := h.groupEnd?.symm.trans h'.groupEnd?
  exact Option.some.inj hends

/-- With counters of 32 bits the end of a group is where the text from its beginning to
    there is one group, and there is one such place at most, in every text of fewer than
    2³¹ characters. -/
theorem groupEnd?_iff_isGroup (b : Bracket) {t : Text} (ht : t.length < 2 ^ 31) :
    (∀ i e, groupEnd? b t i advance32 = some e ↔ GroupBetween b t i e advance32)
      ∧ (isGroup b t advance32 = true
        ↔ ∃ e, groupEnd? b t 0 advance32 = some e ∧ e + 1 = utf8Length t)
      ∧ ∀ i, {e | GroupBetween b t i e advance32}.Subsingleton := by
  obtain ⟨hends, hwhole, hunique⟩ := groups_exact b t
  refine ⟨?_, ?_, ?_⟩
  · intro i e
    rw [groupEnd?_advance32 b i ht, groupBetween_advance32_iff ht, hends]
  · rw [isGroup_advance32 b ht, groupEnd?_advance32 b 0 ht, hwhole]
  · intro i e h e' h'
    exact hunique i ((groupBetween_advance32_iff ht).1 h) ((groupBetween_advance32_iff ht).1 h')

/-- Brackets in a string, an arrow tip in front of a bracket and a second group. -/
theorem groupEnd?_iff_isGroup_angle :
    let t := "f<\">\",(a)=>b>(é)>".toList
    t.length < 2 ^ 31
      ∧ groupEnd? .angle t 1 advance32 = some 12 ∧ GroupBetween .angle t 1 12 advance32
      ∧ ¬GroupBetween .angle t 1 17 advance32
      ∧ isGroup .angle t advance32 = false ∧ groupEnd? .angle t 0 advance32 = none := by
  intro t
  have ht : t.length < 2 ^ 31 := by decide
  have hend : groupEnd? .angle t 1 advance32 = some 12 := by decide
  have hnone : groupEnd? .angle t 0 advance32 = none := by decide
  obtain ⟨hends, hwhole, hunique⟩ := groupEnd?_iff_isGroup .angle ht
  have hbetween : GroupBetween .angle t 1 12 advance32 := (hends 1 12).1 hend
  refine ⟨ht, hend, hbetween, ?_, ?_, hnone⟩
  · intro hother
    cases hunique 1 hbetween hother
  · rw [Bool.eq_false_iff, ne_eq, hwhole, hnone]
    rintro ⟨e, he, _⟩
    cases he

/-! ### Pieces between separators -/

/-- The separators at the top level are where a text falls apart. -/
theorem length_splitTop (d : Char) (t : Text) :
    (splitTop d t).length = (separators d t).length + 1 := by
  have h := congrArg List.length (slices_splitTop d t)
  simpa using h.symm

/-- Splitting loses nothing and leaves nothing to split, and every piece that a
    separator stands behind ends at the top level. -/
theorem splitTop_exact {d : Char} (hd : isPlain d = true) (hstem : d ≠ '~' ∧ d ≠ '=')
    (t : Text) :
    [d].intercalate (splitTop d t) = t
      ∧ (splitTop d t).length = (separators d t).length + 1
      ∧ (∀ p ∈ (splitTop d t).dropLast, (scan .start p).atTop = true)
      ∧ ∀ p ∈ splitTop d t, splitTop d p = [p] := by
  have hparted : Parted d t (splitTop d t) := (splitTop_eq_iff hd hstem).1 rfl
  refine ⟨intercalate_splitTop d t, length_splitTop d t, hparted.atTop, ?_⟩
  intro p hp
  exact splitTop_eq_singleton (hparted.avoids p hp)

/-- A separator in a string behind an escaped quote, brackets that close before they
    open, an arrow tip, and an angle bracket that only stands behind a separator. -/
theorem splitTop_exact_unmatched :
    let t := "a\"\\\";\";)(;é=>\x7b;\x7d;>;".toList
    let pieces := ["a\"\\\";\"".toList, ")(".toList, "é=>\x7b;\x7d".toList, ">;".toList]
    isPlain ';' = true ∧ (';' ≠ '~' ∧ ';' ≠ '=') ∧ splitTop ';' t = pieces
      ∧ [';'].intercalate pieces = t ∧ separators ';' t = [6, 9, 17]
      ∧ (∀ p ∈ pieces.dropLast, (scan .start p).atTop = true)
      ∧ ∀ p ∈ pieces, splitTop ';' p = [p] := by
  intro t pieces
  have hpieces : splitTop ';' t = pieces := by decide
  have hplain : isPlain ';' = true := by decide
  have hstem : ';' ≠ '~' ∧ ';' ≠ '=' := by decide
  obtain ⟨hjoin, _, htop, halone⟩ := splitTop_exact hplain hstem t
  rw [hpieces] at hjoin htop halone
  exact ⟨hplain, hstem, hpieces, hjoin, by decide, htop, halone⟩

end UnionTyping.Text
