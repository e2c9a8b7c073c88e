/-
  UnionTyping/Proofs/Grammar/Segments.lean
  ========================================
  **Programs are their segments** — each node of a program answers one piece between
  top-level semicolons, in the environment that the pieces before it have left, and a
  rejected piece is handed back as a whole.

  The exception is a semicolon at the end of the program that separates nothing: inside
  an open bracket or string it is part of the last piece, but it is dropped before the
  program is split (`readProgram_of_not_endsSeparated`).  A piece that is still open has
  no reading, so that its node is the sentinel, and the text of that sentinel lacks the
  semicolon (`not_answers_both`).
-/
import UnionTyping.Proofs.Grammar.Composition
import UnionTyping.Proofs.Grammar.Programs

namespace UnionTyping

open Text

/-! ### The segments as they stand in the text -/

/-- The pieces of a text between top-level semicolons that are not blank. -/
def segmentTexts (t : Text) : List Text := (splitTop ';' t).filter fun u => !allBlank u

theorem filter_not_allBlank_concat {ts : List Text} {u : Text} (hu : ¬Blank u) :
    (ts ++ [u]).filter (fun u => !allBlank u) = ts.filter (fun u => !allBlank u) ++ [u] := by
  have hkeep : allBlank u = false := Bool.eq_false_iff.2 fun h => hu (allBlank_iff.1 h)
  simp [hkeep]

theorem map_trim_segmentTexts (t : Text) : (segmentTexts t).map trim = segments t :=
  map_trim_filter_not_allBlank (splitTop ';' t)

section

variable {t u last : Text} {env env' : TypeEnv} {ns : List Node} {n : Node}

/-- A program is read segment by segment, if its last semicolon separates. -/
theorem readProgram_of_endsSeparated (ht : endsSeparated t = true) (env : TypeEnv) :
    readProgram t env = readAll env (segmentTexts t) :=
  readProgram_of_map_trim
    (by rw [map_trim_statementTexts_of_endsSeparated ht, map_trim_segmentTexts]) env

/-- The sentinel of a segment has its text. -/
theorem text_of_chain_answers {ts : List Text} (h : Chain Answers ts env ns env') :
    List.Forall₂ (fun u n => n.isInvalid = true → n.text = trim u) ts ns :=
  h.forall₂ fun _ _ _ _ hn => text_of_isInvalid hn.1

/-! ### A semicolon at the end that does not separate -/

/-- Inside a bracket or a string a separator belongs to the last piece. -/
theorem splitTop_append_of_not_atTop {d : Char} {rest : Text} {others : List Text}
    (hu : (scan .start u).atTop = false) (hrest : d ∉ rest)
    (hsplit : splitTop d u = others ++ [last]) :
    splitTop d (u ++ d :: rest) = others ++ [last ++ d :: rest] := by
  have htop : ¬(d = d ∧ (scan .start u).atTopOf Bracket.all = true) := fun h =>
    Bool.false_ne_true (hu.symm.trans h.2)
  have hone : splitOutside Bracket.all d (scan .start u) (d :: rest) = [d :: rest] := by
    rw [splitOutside_cons, if_neg htop, splitOutside_of_not_mem hrest]
    rfl
  exact splitOutside_append hsplit hone

/-- What stands before a last semicolon that does not separate ends in an open piece. -/
theorem exists_of_not_endsSeparated (ht : endsSeparated t = false) :
    ∃ others last blank, Blank blank ∧ (scan .start last).atTop = false
      ∧ splitTop ';' (withoutSemicolon (trimEnd t)) = others ++ [last]
      ∧ splitTop ';' t = others ++ [last ++ ';' :: blank] := by
  rcases hu : before? [';'] (trimEnd t) with _ | u
  · rw [endsSeparated, hu] at ht
    cases ht
  rw [endsSeparated, hu, Option.all_some] at ht
  have hend := before?_eq_some_iff.1 hu
  obtain ⟨blank, hblank, hb⟩ := exists_eq_trimEnd_append t
  have hjoin : t = u ++ ';' :: blank := by
    rw [hend] at hblank
    simpa using hblank
  obtain ⟨others, last, hlast⟩ := exists_splitOutside_eq_concat Bracket.all ';' .start u
  have hparted : Parted ';' u (others ++ [last]) :=
    (splitTop_eq_iff (by decide) (by decide)).1 hlast
  have hopen := hparted.atTop_getLast? (by decide) (by decide) List.getLast?_concat
  have hmem : ';' ∉ blank := fun hm => absurd (hb ';' hm) (by decide)
  refine ⟨others, last, blank, hb, hopen.symm.trans ht, ?_, ?_⟩
  · rw [withoutSemicolon_of_eq hend]
    exact hlast
  · rw [hjoin]
    exact splitTop_append_of_not_atTop ht hmem hlast

theorem not_blank_of_not_atTop (h : (scan .start u).atTop = false) : ¬Blank u := by
  intro hb
  rw [(sealed_of_blank hb).toBalanced.atTop] at h
  cases h

/-- An open text is rejected. -/
theorem isInvalid_of_not_atTop (h : (read u env).result = .ok n)
    (hu : (scan .start u).atTop = false) : n.isInvalid = true := by
  cases hv : n.isInvalid with
  | true => rfl
  | false =>
    rw [(sealed_of_reads (reads_of_read h hv)).toBalanced.atTop] at hu
    cases hu

/-- With a semicolon behind it, an open text is answered with another sentinel. -/
theorem not_answers_both {blank : Text} {env₁ env₂ env₃ : TypeEnv}
    (hlast : (scan .start last).atTop = false) (h : Answers last env n env₁) :
    ¬Answers (last ++ ';' :: blank) env₂ n env₃ := by
  intro h'
  have hv := isInvalid_of_not_atTop h.1 hlast
  have hsame : trim last = trim (last ++ ';' :: blank) :=
    (text_of_isInvalid h.1 hv).symm.trans (text_of_isInvalid h'.1 hv)
  have hsemicolon : ¬Blank (';' :: blank) := fun hb =>
    absurd (hb ';' (List.mem_cons_self ..)) (by decide)
  have hlonger : trim (last ++ ';' :: blank) = trimStart last ++ trimEnd (';' :: blank) := by
    rw [trim, trimStart_append_of_not_blank (not_blank_of_not_atTop hlast),
      trimEnd_append_of_not_blank hsemicolon]
  have hlength := congrArg List.length (hsame.trans hlonger)
  have hle := length_trimEnd_le (trimStart last)
  have hpos := List.length_pos_of_ne_nil (trimEnd_ne_nil hsemicolon)
  rw [trim, List.length_append] at hlength
  omega

/-- Before its last semicolon, an open program is read segment by segment. -/
theorem readProgram_of_not_endsSeparated (ht : endsSeparated t = false) :
    ∃ others last blank, Blank blank ∧ (scan .start last).atTop = false
      ∧ segmentTexts t = others ++ [last ++ ';' :: blank]
      ∧ ∀ env, readProgram t env = readAll env (others ++ [last]) := by
  obtain ⟨others, last, blank, hb, hopen, hbefore, hall⟩ := exists_of_not_endsSeparated ht
  refine ⟨others.filter fun u => !allBlank u, last, blank, hb, hopen, ?_, ?_⟩
  · have hwhole : ¬Blank (last ++ ';' :: blank) := fun hw =>
      not_blank_of_not_atTop hopen hw.of_append.1
    rw [segmentTexts, hall, filter_not_allBlank_concat hwhole]
  · refine readProgram_of_map_trim ?_
    rw [map_trim_statementTexts, segments, hbefore, ← map_trim_filter_not_allBlank,
      filter_not_allBlank_concat (not_blank_of_not_atTop hopen)]

/-! ### Programs -/

/-- The nodes of a program are the answers to its segments, one after the other, and a
    rejected segment is handed back as a whole, unless the program ends with a semicolon
    that does not separate.  Then the nodes are never the answers to the segments: they
    answer the segments without that semicolon. -/
theorem readProgram_segments (t : Text) (env : TypeEnv) (ns : List Node)
    (h : (readProgram t env).result = .ok ns) :
    (endsSeparated t = true →
        Chain Answers (segmentTexts t) env ns (readProgram t env).env
          ∧ List.Forall₂ (fun u n => n.isInvalid = true → n.text = trim u) (segmentTexts t) ns)
      ∧ (endsSeparated t = false →
        (∀ env', ¬Chain Answers (segmentTexts t) env ns env')
          ∧ ∃ others last blank, Blank blank ∧ segmentTexts t = others ++ [last ++ ';' :: blank]
            ∧ Chain Answers (others ++ [last]) env ns (readProgram t env).env) := by
  constructor
  · intro ht
    have hread := readProgram_of_endsSeparated ht env
    rw [hread] at h ⊢
    have hchain := chain_answers_iff.2 ⟨h, rfl⟩
    exact ⟨hchain, text_of_chain_answers hchain⟩
  · intro ht
    obtain ⟨others, last, blank, hb, hopen, hsegments, hread⟩ :=
      readProgram_of_not_endsSeparated ht
    rw [hread] at h ⊢
    have hchain := chain_answers_iff.2 ⟨h, rfl⟩
    refine ⟨?_, others, last, blank, hb, hsegments, hchain⟩
    intro env' hwhole
    rw [hsegments] at hwhole
    obtain ⟨ms, n, env₁, rfl, _, hn⟩ := hchain.concat_inv
    obtain ⟨ms', n', env₂, hns, _, hn'⟩ := hwhole.concat_inv
    obtain rfl := (List.cons.inj (List.append_inj' hns rfl).2).1
    exact not_answers_both hopen hn hn'

/-- A semicolon in a string, blank segments, a rejected one, and a binding that the next
    segment uses. -/
theorem readProgram_segments_rejected :
    let t := " var s = \";\"; ; s +; s;; ".toList
    ∃ ns, (readProgram t .initial).result = .ok ns
      ∧ segmentTexts t = [" var s = \";\"".toList, " s +".toList, " s".toList]
      ∧ Chain Answers (segmentTexts t) .initial ns (readProgram t .initial).env
      ∧ ns.map Node.isInvalid = [false, true, false] := by
  intro t
  have h : (readProgram t .initial).result.toOption.map (fun ns => ns.map Node.isInvalid)
      = some [false, true, false] := by decide +kernel
  obtain ⟨ns, hr, hinvalid⟩ := exists_of_toOption_map h
  have hchain := ((readProgram_segments t .initial ns hr).1 (by decide)).1
  exact ⟨ns, hr, by decide, hchain, hinvalid⟩

/-- The bracket is still open at the semicolon, which is the last character of the only
    segment, and the sentinel goes without it. -/
theorem sentinel_without_semicolon :
    segmentTexts "f(;".toList = ["f(;".toList]
      ∧ ∃ n m, (readProgram "f(;".toList .empty).result = .ok [n] ∧ n.text = "f(".toList
        ∧ (read "f(;".toList .empty).result = .ok m ∧ m.text = "f(;".toList
        ∧ ∀ env, ¬Chain Answers (segmentTexts "f(;".toList) .empty [n] env := by
  have hprogram : (readProgram "f(;".toList .empty).result.toOption.map (fun ns =>
      ns.map Node.text) = some ["f(".toList] := by decide +kernel
  have hsegment : (read "f(;".toList .empty).result.toOption.map Node.text
      = some "f(;".toList := by decide +kernel
  have hone : segmentTexts "f(;".toList = ["f(;".toList] := by decide
  obtain ⟨ns, hr, htexts⟩ := exists_of_toOption_map hprogram
  obtain ⟨n, ns, rfl, hn, hns⟩ := List.map_eq_cons_iff.1 htexts
  obtain rfl := List.map_eq_nil_iff.1 hns
  obtain ⟨m, hread, hm⟩ := exists_of_toOption_map hsegment
  refine ⟨hone, n, m, hr, hn, hread, hm, ?_⟩
  intro env hchain
  rw [hone] at hchain
  obtain ⟨hanswer, _⟩ := hchain.singleton_inv
  obtain rfl := Except.ok.inj (hread.symm.trans hanswer)
  exact absurd (hm.symm.trans hn) (by decide)

end

end UnionTyping
