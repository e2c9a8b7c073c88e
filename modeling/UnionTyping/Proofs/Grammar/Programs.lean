/-
  UnionTyping/Proofs/Grammar/Programs.lean
  ========================================
  **Programs compose** — two programs joined by a semicolon are read like the
  first and then, in the environment that it leaves, the second.

  A program is read piece by piece, and a piece only counts for its trimmed text
  (`read_trim`).  So a program is compared through its `segments`, the trimmed
  pieces that are not empty: blank space around a text does not change them, and
  they can be listed for the two sides of a semicolon at the top level
  separately (`segments_append`).  The one semicolon that is dropped at the end
  of a program only hides an empty piece, unless it stands inside a bracket or a
  string; then the text before it is not at the top level at its end.
-/
import UnionTyping.Proofs.Grammar.RoundTrip

namespace UnionTyping

open Text

/-! ### Reading one list of statements after the other -/

/-- A reading and, unless it ends with a type error, the next one in the
    environment that it leaves. -/
def Reading.followedBy (first : Reading (List Node)) (next : TypeEnv → Reading (List Node)) :
    Reading (List Node) :=
  match first.result with
  | .error _ => first
  | .ok ns =>
    let second := next first.env
    ⟨second.result.map (ns ++ ·), second.env, first.events ++ second.events⟩

theorem readAll_append (env : TypeEnv) (ts us : List Text) :
    readAll env (ts ++ us) = (readAll env ts).followedBy fun env' => readAll env' us := by
  induction ts generalizing env with
  | nil =>
    rcases h : readAll env us with ⟨result, env', events⟩
    cases result <;> simp [readAll, Reading.followedBy, h, Except.map]
  | cons t ts ih =>
    rcases hr : (read t env).result with e | n
    · simp only [List.cons_append, readAll, hr, Reading.followedBy]
    · have h := ih (read t env).env
      rcases hts : (readAll (read t env).env ts).result with e | ns
      · simp only [Reading.followedBy, hts] at h
        simp only [List.cons_append, readAll, hr, h, hts, Reading.followedBy, Except.map]
      · simp only [Reading.followedBy, hts] at h
        simp only [List.cons_append, readAll, hr, h, hts, Reading.followedBy, Except.map,
          List.append_assoc]
        rcases (readAll (readAll (read t env).env ts).env us).result with e | ms <;> rfl

theorem readAll_map_trim (env : TypeEnv) (ts : List Text) :
    readAll env (ts.map trim) = readAll env ts := by
  induction ts generalizing env with
  | nil => rfl
  | cons t ts ih => simp only [List.map_cons, readAll, read_trim, ih]

/-! ### The trimmed pieces of a program -/

namespace Text

/-- The trimmed pieces of a text between top-level semicolons that are not empty. -/
def segments (t : Text) : List Text :=
  ((splitTop ';' t).map trim).filter fun segment => !segment.isEmpty

theorem segments_append {t u : Text} (ht : (scan .start t).atTop = true) :
    segments (t ++ ';' :: u) = segments t ++ segments u := by
  rw [segments, splitTop_append (by decide) (by decide) ht, List.map_append, List.filter_append]
  rfl

theorem splitOutside_of_not_mem {bs : List Bracket} {d : Char} {s : Nesting} {t : Text}
    (h : d ∉ t) : splitOutside bs d s t = [t] := by
  induction t generalizing s with
  | nil => rfl
  | cons c t ih =>
    have hc : ¬(c = d ∧ s.atTopOf bs = true) := fun hc => h (by simp [hc.1])
    simp only [splitOutside, ih (fun hm => h (List.mem_cons_of_mem _ hm)), if_neg hc]

/-- Blank space at the end only makes the last piece longer. -/
theorem map_trimEnd_splitOutside {bs : List Bracket} {d : Char} {s : Nesting} {t r : Text}
    (hd : isBlank d = false) (hr : Blank r) :
    (splitOutside bs d s (t ++ r)).map trimEnd = (splitOutside bs d s t).map trimEnd := by
  have hmem : d ∉ r := fun hm => by simp [hr d hm] at hd
  obtain ⟨others, last, hlast⟩ := exists_splitOutside_eq_concat bs d s t
  rw [splitOutside_append hlast (splitOutside_of_not_mem hmem), hlast]
  simp [trimEnd_append_blank hr]

/-- Blank space at the start only makes the first piece longer. -/
theorem splitOutside_blank_append {bs : List Bracket} {d : Char} {s : Nesting} {l t : Text}
    (hd : isBlank d = false) (hl : Blank l) :
    splitOutside bs d s (l ++ t) = (splitOutside bs d (scan s l) t).modifyHead (l ++ ·) := by
  have hmem : d ∉ l := fun hm => by simp [hl d hm] at hd
  obtain ⟨p, ps, hp⟩ := List.exists_cons_of_ne_nil (splitOutside_ne_nil bs d (scan s l) t)
  have hone : splitOutside bs d s l = [] ++ [l] := splitOutside_of_not_mem hmem
  rw [splitOutside_append hone hp, hp]
  rfl

theorem segments_append_blank {t r : Text} (hr : Blank r) : segments (t ++ r) = segments t := by
  have hd : isBlank ';' = false := by decide
  have h : (splitTop ';' (t ++ r)).map trimEnd = (splitTop ';' t).map trimEnd :=
    map_trimEnd_splitOutside hd hr
  have htrim : trim = trimStart ∘ trimEnd := funext trim_eq_trimStart_trimEnd
  rw [segments, segments, htrim, ← List.map_map, ← List.map_map]
  exact congrArg _ (congrArg _ h)

theorem segments_blank_append {l t : Text} (hl : Blank l) : segments (l ++ t) = segments t := by
  have htop := (sealed_of_blank hl).toBalanced.atTop
  obtain ⟨p, ps, hp⟩ := List.exists_cons_of_ne_nil (splitOutside_ne_nil Bracket.all ';' .start t)
  have hpieces : splitTop ';' (l ++ t) = (l ++ p) :: ps := by
    have hsplit : splitTop ';' t = p :: ps := hp
    rw [splitTop, splitOutside_blank_append (by decide) hl,
      splitOutside_of_atTop htop (fits_of_blank hl t), hsplit, List.modifyHead_cons]
  rw [segments, segments, hpieces, show splitTop ';' t = p :: ps from hp, List.map_cons,
    List.map_cons, trim_blank_append hl]

theorem segments_trimStart (t : Text) : segments (trimStart t) = segments t := by
  obtain ⟨l, hl, hb⟩ := exists_eq_append_trimStart t
  conv_rhs => rw [hl, segments_blank_append hb]

/-! ### The semicolon at the end -/

/-- The text without one semicolon at its end. -/
def withoutSemicolon (t : Text) : Text := (before? [';'] t).getD t

theorem withoutSemicolon_of_eq {t u : Text} (h : t = u ++ [';']) : withoutSemicolon t = u := by
  rw [withoutSemicolon, before?_eq_some_iff.2 h, Option.getD_some]

theorem withoutSemicolon_append {t u : Text} (hu : u ≠ []) :
    withoutSemicolon (t ++ u) = t ++ withoutSemicolon u := by
  rcases h : before? [';'] u with _ | v
  · have hn : before? [';'] (t ++ u) = none := by
      refine Option.eq_none_iff_forall_ne_some.2 fun w hw => ?_
      -- the last character of `t ++ u` is that of `u`
      obtain ⟨v, c, rfl⟩ := (List.eq_nil_or_concat u).resolve_left hu
      have hlast := congrArg List.getLast? (before?_eq_some_iff.1 hw)
      simp only [List.concat_eq_append, ← List.append_assoc, List.getLast?_concat] at hlast
      obtain rfl := Option.some.inj hlast
      rw [before?_eq_some_iff.2 (List.concat_eq_append)] at h
      cases h
    simp only [withoutSemicolon, hn, h, Option.getD_none]
  · have hv := before?_eq_some_iff.1 h
    rw [withoutSemicolon_of_eq (u := t ++ v) (by rw [hv, List.append_assoc]),
      withoutSemicolon_of_eq hv]

/-- If there is a semicolon at the end, it stands at the top level. -/
def endsSeparated (t : Text) : Bool :=
  (before? [';'] (trimEnd t)).all fun u => (scan .start u).atTop

theorem endsSeparated_of_atTop {t : Text} (ht : (scan .start t).atTop = true) :
    endsSeparated t = true := by
  rw [endsSeparated, Option.all_eq_true]
  intro u hu
  have hend := atTop_trimEnd_iff.2 ht
  rw [before?_eq_some_iff.1 hu, scan_append] at hend
  exact atTop_of_scan_of_plain (by decide) hend

/-- The last semicolon hides an empty piece, if it stands at the top level. -/
theorem segments_withoutSemicolon {t : Text} (ht : endsSeparated t = true) :
    segments (withoutSemicolon (trimEnd t)) = segments t := by
  obtain ⟨r, hr, hb⟩ := exists_eq_trimEnd_append t
  have hend : segments (trimEnd t) = segments t := by
    conv_rhs => rw [hr, segments_append_blank hb]
  rw [← hend]
  rcases h : before? [';'] (trimEnd t) with _ | u
  · rw [withoutSemicolon, h, Option.getD_none]
  · rw [endsSeparated, h, Option.all_some] at ht
    rw [before?_eq_some_iff.1 h, withoutSemicolon_of_eq rfl, segments_append ht]
    exact (List.append_nil _).symm

theorem segments_withoutSemicolon_trimStart (t : Text) :
    segments (withoutSemicolon (trimStart t)) = segments (withoutSemicolon t) := by
  obtain ⟨l, hl, hb⟩ := exists_eq_append_trimStart t
  by_cases ht : trimStart t = []
  · rw [ht, List.append_nil] at hl
    have hlast : before? [';'] t = none := by
      refine Option.eq_none_iff_forall_ne_some.2 fun u hu => ?_
      have hblank := hb ';' (by rw [← hl, before?_eq_some_iff.1 hu]; simp)
      exact absurd hblank (by decide)
    have hnone : segments [] = segments t := by rw [← ht, segments_trimStart]
    rw [ht, withoutSemicolon, withoutSemicolon, hlast]
    exact hnone
  · conv_rhs => rw [hl, withoutSemicolon_append ht, segments_blank_append hb]

theorem map_trim_filter_not_allBlank (ts : List Text) :
    (ts.filter fun u => !allBlank u).map trim = (ts.map trim).filter fun u => !u.isEmpty := by
  have hempty : (fun u : Text => !allBlank u) = (fun u : Text => !u.isEmpty) ∘ trim := rfl
  rw [List.filter_map, hempty]

/-- The statements of a program, trimmed. -/
theorem map_trim_statementTexts (t : Text) :
    (statementTexts t).map trim = segments (withoutSemicolon (trimEnd t)) := by
  rw [← segments_withoutSemicolon_trimStart, ← trim_eq_trimStart_trimEnd]
  exact map_trim_filter_not_allBlank _

end Text

/-! ### Composition -/

/-- A program is read by its statements, which count for their trimmed texts. -/
theorem readProgram_of_map_trim {t : Text} {ts : List Text}
    (h : (statementTexts t).map trim = ts.map trim) (env : TypeEnv) :
    readProgram t env = readAll env ts := by
  rw [readProgram, ← readAll_map_trim, h, readAll_map_trim]

/-- The statements of a program are its segments, unless it ends with a semicolon inside a
    bracket or a string. -/
theorem map_trim_statementTexts_of_endsSeparated {t : Text} (ht : endsSeparated t = true) :
    (statementTexts t).map trim = segments t := by
  rw [map_trim_statementTexts, segments_withoutSemicolon ht]

/-- The statements of two programs with a semicolon in between. -/
theorem map_trim_statementTexts_append {a b : Text} (ha : (scan .start a).atTop = true) :
    (statementTexts (a ++ ';' :: b)).map trim
      = (statementTexts a).map trim ++ (statementTexts b).map trim := by
  have hjoin : a ++ ';' :: b = (a ++ [';']) ++ b := by simp
  rw [map_trim_statementTexts_of_endsSeparated (endsSeparated_of_atTop ha), map_trim_statementTexts, map_trim_statementTexts]
  by_cases hb : Blank b
  · -- the semicolon in between is the one that is dropped at the end
    have hall : trimEnd (a ++ ';' :: b) = a ++ [';'] := by
      rw [hjoin, trimEnd_append_blank hb]
      exact trimEnd_eq_self (by simp +decide)
    have hnone : trimEnd b = [] := by
      simpa [trimEnd] using trimEnd_append_blank (t := []) hb
    rw [hall, withoutSemicolon_of_eq rfl, hnone]
    exact (List.append_nil _).symm
  · rw [hjoin, trimEnd_append_of_not_blank hb, withoutSemicolon_append (trimEnd_ne_nil hb), ← segments_append ha]
    simp

/-- Two programs with a semicolon in between are the first program followed by the
    second. -/
theorem readProgram_append (a b : Text) (env : TypeEnv) (ha : (scan .start a).atTop = true) :
    readProgram (a ++ ';' :: b) env = (readProgram a env).followedBy (readProgram b) := by
  have hmap := map_trim_statementTexts_append (b := b) ha
  calc readProgram (a ++ ';' :: b) env
      = readAll env ((statementTexts (a ++ ';' :: b)).map trim) := (readAll_map_trim env _).symm
    _ = readAll env ((statementTexts a).map trim ++ (statementTexts b).map trim) := by rw [hmap]
    _ = (readProgram a env).followedBy (readProgram b) := by
        simp only [readAll_append, readAll_map_trim]
        rfl

/-- A semicolon in a body, one too many at the end, a rejected statement, and a
    second program that ends inside a bracket. -/
theorem readProgram_append_unbalanced :
    (scan .start "var f = () ~> \x7b1; 2;\x7d; +;".toList).atTop = true
      ∧ readProgram ("var f = () ~> \x7b1; 2;\x7d; +;".toList ++ ';' :: " ; f; (f;".toList) .initial
        = (readProgram "var f = () ~> \x7b1; 2;\x7d; +;".toList .initial).followedBy
            (readProgram " ; f; (f;".toList)
      ∧ ((readProgram "var f = () ~> \x7b1; 2;\x7d; +;".toList .initial).followedBy
            (readProgram " ; f; (f;".toList)).result.toOption.map (·.map Node.isInvalid)
        = some [false, true, false, true] :=
  ⟨by decide +kernel, readProgram_append _ _ _ (by decide +kernel), by decide +kernel⟩

end UnionTyping
