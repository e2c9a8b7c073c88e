/-
  UnionTyping/Proofs/Grammar/Splits.lean
  ======================================
  **Finding calls and lambdas in raw text** — a shape is found by brackets alone,
  before any piece of it is known to be readable, so what can be said of it holds
  for every text.

  A call is found from its end.  Its pieces are described from the front, as a text
  put together from a caller, generic arguments and arguments (`CallSplit`), and the
  two descriptions agree in both directions (`callShape?_exact`): the last group is
  the right one, and where no call is found there is none.  This counts with
  integers; counters of 32 bits find the same calls in a text of fewer than 2³¹
  characters (`callShape?_advance32`).

  A lambda is cut from both ends.  Its pieces need not be balanced in any bracket but
  their own: what is between the parameters and the body only has to end at the top
  level, so that nothing in it, in the parameters or in the body can shift the arrow
  (`lambdaShape?_of_pieces`).
-/
import UnionTyping.Proofs.Grammar.Lambdas
import UnionTyping.Proofs.Scan.Counters
import Mathlib.Data.Set.Subsingleton

namespace UnionTyping

open Text Nesting

/-! ### Calls -/

/-- What is called in a text: it has no blank space around it and ends at the top level. -/
structure CallerText (c : Text) : Prop where
  trimmed : Trimmed c
  ne_nil : c ≠ []
  atTop : (scan .start c).atTop = true

/-- What stands before the arguments of a call: the caller and, in one group of angle
    brackets, the generic arguments, if there are any. -/
inductive Called (caller : Text) : Text → Text → Prop
  | plain {blank : Text} : caller.getLast? ≠ some '>' → Blank blank →
      Called caller [] (caller ++ blank)
  | generic {generics blank blank' : Text} :
      isGroup .angle ('<' :: (generics ++ ['>'])) = true →
      (scan .start ('<' :: (generics ++ ['>']))).atTop = true →
      (blank = [] → caller.getLast? ≠ some '~' ∧ caller.getLast? ≠ some '=') →
      Blank blank → Blank blank' →
      Called caller generics (caller ++ (blank ++ ('<' :: (generics ++ ['>']) ++ blank')))

/-- The text is a call with these pieces. -/
structure CallSplit (t : Text) (shape : CallShape) : Prop where
  caller : CallerText shape.caller
  arguments : isGroup .round ('(' :: (shape.arguments ++ [')'])) = true
  text : ∃ called, Called shape.caller shape.generics called
    ∧ t = called ++ '(' :: (shape.arguments ++ [')'])

section

variable {t called caller generics : Text}

/-- What stands before a group is called, without the blank space at its end. -/
theorem callerText_trimEnd {rest : Text} (h : Trimmed (t ++ rest)) (hne : t ≠ [])
    (htop : (scan .start t).atTop = true) : CallerText (trimEnd t) := by
  obtain ⟨c, u, rfl⟩ := List.exists_cons_of_ne_nil hne
  have hhead : ∀ d, (c :: u).head? = some d → isBlank d = false := h.1
  refine ⟨trimmed_trimEnd hhead, ?_, atTop_trimEnd_iff.2 htop⟩
  intro hnil
  obtain ⟨blank, hblank, hb⟩ := exists_eq_trimEnd_append (c :: u)
  rw [hnil, List.nil_append] at hblank
  have hc := hb c (by rw [← hblank]; exact List.mem_cons_self ..)
  rw [hhead c rfl] at hc
  cases hc

/-- Behind blank space an angle bracket is no tip of an arrow. -/
theorem isTip_angle_iff {blank : Text} (hb : Blank blank) :
    (scan .start (t ++ blank)).isTip '<' = false
      ↔ (blank = [] → t.getLast? ≠ some '~' ∧ t.getLast? ≠ some '=') := by
  by_cases hnil : blank = []
  · subst hnil
    simp [isTip, previous_scan_start]
  · have hfits := fits_scan_blank hb hnil (scan .start t) ['<'] '<' rfl
    rw [scan_append]
    simp [hfits, hnil]

/-- Generic arguments that are found stand behind what is called. -/
theorem Called.of_lastGroup? {front : Text} (htop : (scan .start called).atTop = true)
    (h : lastGroup? .angle (trimEnd called) = some (front, generics)) :
    Called (trimEnd front) generics called := by
  obtain ⟨blank', hblank', hb'⟩ := exists_eq_trimEnd_append called
  obtain ⟨blank, hblank, hb⟩ := exists_eq_trimEnd_append front
  obtain ⟨hcalled, hfront, htip, hgroup⟩ := lastGroup?_eq_some_iff.1 h
  have hgenerics : (scan .start ('<' :: (generics ++ ['>']))).atTop = true := by
    rwa [← atTop_trimEnd_iff, hcalled, scan_append,
      scan_of_atTop hfront (fits_cons htip) (List.cons_ne_nil _ _)] at htop
  have htext : called = trimEnd front ++ (blank ++ ('<' :: (generics ++ ['>']) ++ blank')) := by
    rw [hblank', hcalled]
    conv_lhs => rw [hblank]
    simp [Bracket.opening, Bracket.closing]
  rw [htext]
  rw [hblank] at htip
  exact .generic hgroup hgenerics ((isTip_angle_iff hb).1 htip) hb hb'

/-- A caller, and the generic arguments behind it, end at the top level. -/
theorem Called.atTop (h : Called caller generics called) (hc : CallerText caller) :
    (scan .start called).atTop = true := by
  cases h with
  | plain _ hb => exact (atTop_append_blank_iff hb).2 hc.atTop
  | @generic _ blank blank' _ hgenerics htip hb hb' =>
    have hfront := (atTop_append_blank_iff hb).2 hc.atTop
    have hangle := (isTip_angle_iff hb).2 htip
    rwa [← List.append_assoc, ← List.append_assoc, atTop_append_blank_iff hb', scan_append,
      scan_of_atTop hfront (fits_cons hangle) (List.cons_ne_nil _ _)]

/-- What is called is found, and the generic arguments behind it. -/
theorem Called.found (h : Called caller generics called) (hc : CallerText caller) :
    (generics = [] ∧ caller = trimEnd called ∧ (trimEnd called).getLast? ≠ some '>')
      ∨ ∃ front, lastGroup? .angle (trimEnd called) = some (front, generics) ∧ front ≠ []
        ∧ caller = trimEnd front := by
  have htrim {blank : Text} (hb : Blank blank) : trimEnd (caller ++ blank) = caller := by
    rw [trimEnd_append_blank hb, trimEnd_eq_self hc.trimmed.2]
  cases h with
  | plain hlast hb => exact Or.inl ⟨rfl, (htrim hb).symm, by rwa [htrim hb]⟩
  | @generic _ blank blank' hgroup _ htip hb hb' =>
    have hend : trimEnd (caller ++ (blank ++ ('<' :: (generics ++ ['>']) ++ blank')))
        = (caller ++ blank) ++ '<' :: (generics ++ ['>']) := by
      rw [← List.append_assoc, ← List.append_assoc, trimEnd_append_blank hb']
      apply trimEnd_eq_self
      intro c hlast
      rw [← List.cons_append, ← List.append_assoc, List.getLast?_concat] at hlast
      obtain rfl := Option.some.inj hlast
      decide
    have hfront := (atTop_append_blank_iff hb).2 hc.atTop
    refine Or.inr ⟨caller ++ blank, ?_, by simp [hc.ne_nil], (htrim hb).symm⟩
    rw [hend]
    exact lastGroup?_eq_some_iff.2 ⟨rfl, hfront, (isTip_angle_iff hb).2 htip, hgroup⟩

theorem Called.ne_nil (h : Called caller generics called) (hc : caller ≠ []) : called ≠ [] := by
  cases h with
  | plain => simp [hc]
  | generic => simp

theorem callSplit_of_callShape? {shape : CallShape} (h : callShape? t = some shape) :
    CallSplit (trim t) shape := by
  obtain ⟨called, hlast, hne, hcase⟩ := callShape?_eq_some_iff.1 h
  obtain ⟨ht, htop, _, harguments⟩ := lastGroup?_eq_some_iff.1 hlast
  have hcalled := callerText_trimEnd (by rw [← ht]; exact trimmed_trim t) hne htop
  rcases hcase with ⟨hnil, hcaller, hangle⟩ | ⟨front, hfront, hne', hcaller⟩
  · obtain ⟨blank, hblank, hb⟩ := exists_eq_trimEnd_append called
    refine ⟨by rwa [hcaller], harguments, called, ?_, ht⟩
    rw [hnil, hcaller]
    nth_rewrite 2 [hblank]
    exact .plain hangle hb
  · obtain ⟨hcalled', hfronttop, _⟩ := lastGroup?_eq_some_iff.1 hfront
    refine ⟨?_, harguments, called, ?_, ht⟩
    · rw [hcaller]
      exact callerText_trimEnd (by rw [← hcalled']; exact hcalled.trimmed) hne' hfronttop
    · rw [hcaller]
      exact .of_lastGroup? htop hfront

theorem callShape?_of_callSplit {shape : CallShape} (h : CallSplit (trim t) shape) :
    callShape? t = some shape := by
  obtain ⟨hcaller, harguments, called, hcalled, ht⟩ := h
  have hlast := lastGroup?_eq_some_iff.2 ⟨ht, hcalled.atTop hcaller, rfl, harguments⟩
  exact callShape?_eq_some_iff.2
    ⟨called, hlast, hcalled.ne_nil hcaller.ne_nil, hcalled.found hcaller⟩

theorem lastGroup?_advance32 (b : Bracket) (ht : t.length < 2 ^ 31) :
    lastGroup? b t advance32 = lastGroup? b t := by
  unfold lastGroup? cutLastOpening
  rw [cutLast_advance32 _ (hasRoom_start ht)]
  apply Option.bind_congr
  rintro ⟨before, rest⟩ hcut
  have hrest : (b.opening :: rest).length < 2 ^ 31 := by
    have hlength := length_of_cutLast hcut
    rw [List.length_cons]
    omega
  simp only [group?_advance32 b hrest]

/-- Counters of 32 bits find the calls that integers find. -/
theorem callShape?_advance32 (ht : t.length < 2 ^ 31) : callShape? t advance32 = callShape? t := by
  have htrim : (trim t).length < 2 ^ 31 := Nat.lt_of_le_of_lt (length_trim_le t) ht
  unfold callShape?
  rw [lastGroup?_advance32 .round htrim]
  apply Option.bind_congr
  rintro ⟨called, arguments⟩ hlast
  have hcalled : (trimEnd called).length < 2 ^ 31 := by
    have hlength := length_of_lastGroup? hlast
    have hend := length_trimEnd_le called
    omega
  simp only [lastGroup?_advance32 .angle hcalled]

/-- Calls are found exactly: a text is taken apart into a caller, arguments and
    generic arguments if and only if it is put together from them, and that in no more
    than one way.  For counters of 32 bits this is limited to texts of fewer than 2³¹
    characters. -/
theorem callShape?_exact (t : Text) :
    (∀ shape, callShape? t = some shape ↔ CallSplit (trim t) shape)
      ∧ {shape | CallSplit (trim t) shape}.Subsingleton := by
  refine ⟨fun shape => ⟨callSplit_of_callShape?, callShape?_of_callSplit⟩, ?_⟩
  intro shape hshape shape' hshape'
  have h := callShape?_of_callSplit hshape
  rw [callShape?_of_callSplit hshape'] at h
  exact (Option.some.inj h).symm

/-- A call of a call, with a bracket in a string and one that is not closed. -/
example : callShape? " f(1) <list[T]> (\")\", \x7b) ".toList
    = some ⟨"f(1)".toList, "\")\", \x7b".toList, "list[T]".toList⟩ := by decide +kernel

end

/-! ### Lambdas -/

/-- A result type as it is written, if there is one. -/
def annotationText : Option Text → Text
  | none => []
  | some written => ':' :: written

/-- The pieces of a lambda are found as they are written: the generics and the
    parameters in the heading, the result type without the blank space around it, the
    body, and from the stem of the arrow whether the body has a scope of its own. -/
theorem lambdaShape?_of_pieces {heading params body before between after : Text}
    {generics result : Option Text} {stem : Char} (hh : Heading heading generics params)
    (hr : ∀ written, result = some written → (scan .start (':' :: written)).atTop = true)
    (hs : stem = '=' ∨ stem = '~') (hb : isGroup .curly ('\x7b' :: (body ++ ['\x7d'])) = true)
    (hbefore : Blank before) (hbetween : Blank between) (hafter : Blank after) :
    lambdaShape? (heading ++ (before ++ (annotationText result ++ (between
        ++ (stem :: '>' :: (after ++ '\x7b' :: (body ++ ['\x7d'])))))))
      = some ⟨generics, params, result.map trim, stem == '=', body⟩ := by
  have harrow : lambdaArrow (stem == '=') = [stem, '>'] := by
    rcases hs with rfl | rfl <;> rfl
  cases result with
  | none =>
    have h := lambdaShape?_heading_append [] (stem == '=') hh
      (hbefore.append hbetween) hafter nofun rfl rfl hb
    rwa [harrow, List.append_assoc] at h
  | some written =>
    -- the blank space behind the result type is trimmed away with its own
    have htop : (scan .start (':' :: (written ++ between))).atTop = true := by
      rw [← List.cons_append]
      exact (atTop_append_blank_iff hbetween).2 (hr written rfl)
    have htrim : trim (written ++ between) = trim written :=
      trim_append_blank (l := []) blank_nil hbetween
    have hresult := resultPart?_colon (written ++ between)
    have hhead : ∀ c, (':' :: (written ++ between)).head? = some c → isBlank c = false := by
      intro c hc
      obtain rfl := Option.some.inj hc
      decide
    have h := lambdaShape?_heading_append (':' :: (written ++ between)) (stem == '=') hh hbefore
      hafter hhead htop hresult hb
    rw [harrow, htrim] at h
    simpa [annotationText] using h

/-- Each piece has brackets that do not match, and the result type an arrow and curly
    brackets of its own. -/
theorem lambdaShape?_of_pieces_unmatched :
    let heading := "[(<] (]\x7b)".toList
    let written := " \x7bx\x7d=>(\"\x7b\")!".toList
    let body := "])".toList
    Heading heading (some "(<".toList) "]\x7b".toList
      ∧ (scan .start (':' :: written)).atTop = true
      ∧ isGroup .curly ('\x7b' :: (body ++ ['\x7d'])) = true
      ∧ lambdaShape? "[(<] (]\x7b) : \x7bx\x7d=>(\"\x7b\")! ~> \x7b])\x7d".toList
        = some ⟨some "(<".toList, "]\x7b".toList, some (trim written), false, body⟩ := by
  intro heading written body
  have hsquare : unwrap? .square "[(<]".toList = some "(<".toList := by decide
  have hround : unwrap? .round "(]\x7b)".toList = some "]\x7b".toList := by decide
  have hh : Heading heading (some "(<".toList) "]\x7b".toList :=
    .generic hsquare blank_blank hround
  have htop : (scan .start (':' :: written)).atTop = true := by decide
  have hb : isGroup .curly ('\x7b' :: (body ++ ['\x7d'])) = true := by decide
  have hr : ∀ u, some written = some u → (scan .start (':' :: u)).atTop = true := by
    intro u hu
    rwa [← Option.some.inj hu]
  have htext : "[(<] (]\x7b) : \x7bx\x7d=>(\"\x7b\")! ~> \x7b])\x7d".toList
      = heading ++ ([' '] ++ (annotationText (some written) ++ ([' ']
        ++ ('~' :: '>' :: ([' '] ++ '\x7b' :: (body ++ ['\x7d'])))))) := by decide
  refine ⟨hh, htop, hb, ?_⟩
  rw [htext]
  exact lambdaShape?_of_pieces hh hr (Or.inr rfl) hb blank_blank blank_blank blank_blank

end UnionTyping
