/-
  UnionTyping/Proofs/Grammar/Sentinels.lean
  =========================================
  **The sentinel locates the fault** — a text that cannot be read is answered with
  the invalid node, which carries the text and the fragment that was rejected.  The
  fragment is a stretch of the text, wherever in it the fault arose; in a program
  the text is in turn a stretch of the program.  There is no sentinel inside a tree:
  a node of a program is well-formed throughout or is the sentinel itself.
-/
import UnionTyping.Proofs.Grammar.Composition
import UnionTyping.Proofs.Grammar.PartReaders
import UnionTyping.Proofs.Grammar.RoundTrip
import UnionTyping.Proofs.Grammar.WellFormed

namespace UnionTyping

open Text ParseM

/-! ### One text -/

theorem locates_expression (t : Text) (env : TypeEnv) :
    Ensures (ParseError.Locates (trim t)) (fun _ => True) (expression t ⟨env, 0⟩).result := by
  rw [← expression_trim]
  exact (agreesAt_expression 0 (trim t) ⟨env, 0⟩ rfl).2.2

theorem Node.WellFormed.isInvalid {n : Node} (h : n.WellFormed) : n.isInvalid = false := by
  cases n with
  | invalid text fragment reason => exact h.elim
  | _ => rfl

/-- An answer is a well-formed tree, or the sentinel of the text. -/
theorem wellFormed_or_sentinel_of_read {t : Text} {env : TypeEnv} {n : Node}
    (h : (read t env).result = .ok n) :
    n.WellFormed
      ∨ ∃ fragment reason, n = .invalid (trim t) fragment reason ∧ fragment <:+: trim t := by
  rcases reads_or_sentinel_of_read h with hr | ⟨fragment, reason, hn, hfragment⟩
  · exact Or.inl (wellFormed_of_reads hr)
  · refine Or.inr ⟨fragment, reason, hn, ?_⟩
    rcases hfragment with rfl | ⟨fault, form, hr⟩
    · exact List.infix_rfl
    · exact (locates_expression t env).of_error hr

/-! ### Programs -/

/-- Each node of a program is the answer to one of its statements. -/
theorem exists_of_mem_readAll {ts : List Text} {env : TypeEnv} {ns : List Node}
    (h : (readAll env ts).result = .ok ns) :
    ∀ n ∈ ns, ∃ t ∈ ts, ∃ env', (read t env').result = .ok n := by
  have hall : List.Forall₂ (fun t n => ∃ env', (read t env').result = .ok n) ts ns :=
    (chain_answers_iff.2 ⟨h, rfl⟩).forall₂ fun _ e _ _ hn => ⟨e, hn.1⟩
  exact exists_of_forall₂_right hall

theorem isInfix_of_mem_statementTexts {t u : Text} (h : u ∈ statementTexts t) : u <:+: t := by
  have hu : u <:+: (before? [';'] (trim t)).getD (trim t) :=
    isInfix_of_mem_splitTop (List.mem_filter.1 h).1
  refine hu.trans (List.IsInfix.trans ?_ (trim_isInfix t))
  cases hb : before? [';'] (trim t) with
  | none => exact List.infix_rfl
  | some stem =>
    rw [before?_eq_some_iff.1 hb]
    exact (List.prefix_append stem [';']).isInfix

/-- **The sentinel locates the fault.**  Its text is the trimmed text that was handed
    in and its fragment a stretch of it.  A node of a program is well-formed at every
    depth, or a sentinel whose text is a stretch of the program and whose fragment is
    a stretch of that text. -/
theorem sentinel_locates_fault (t : Text) (env : TypeEnv) :
    (∀ text fragment reason, (read t env).result = .ok (.invalid text fragment reason) →
        text = trim t ∧ fragment <:+: text)
      ∧ ∀ nodes, (readProgram t env).result = .ok nodes → ∀ n ∈ nodes,
        n.WellFormed ∨ ∃ text fragment reason,
          n = .invalid text fragment reason ∧ text <:+: t ∧ fragment <:+: text := by
  constructor
  · intro text fragment reason h
    rcases wellFormed_or_sentinel_of_read h with hwell | ⟨fragment', reason', heq, hfragment⟩
    · exact hwell.elim
    · obtain ⟨rfl, rfl, _⟩ := Node.invalid.inj heq
      exact ⟨rfl, hfragment⟩
  · intro nodes hnodes n hn
    obtain ⟨u, hu, env', hr⟩ := exists_of_mem_readAll hnodes n hn
    rcases wellFormed_or_sentinel_of_read hr with hwell | ⟨fragment, reason, rfl, hfragment⟩
    · exact Or.inl hwell
    · have htext := (trim_isInfix u).trans (isInfix_of_mem_statementTexts hu)
      exact Or.inr ⟨trim u, fragment, reason, rfl, htext, hfragment⟩

/-- The fault is a type in a parameter list, behind parentheses and blanks, in a
    lambda that is the argument of a call. -/
theorem sentinel_locates_fault_annotation :
    ∃ n m, (readProgram "var x = 1; f( ((a: ( 5 |string)) => \x7ba\x7d) ) ;".toList
        .initial).result = .ok [n, m]
      ∧ m.same (.invalid "f( ((a: ( 5 |string)) => \x7ba\x7d) )".toList "5".toList
        "lambda: expected a type name".toList) = true
      ∧ n.WellFormed
      ∧ ∃ text fragment reason, m = .invalid text fragment reason
        ∧ text <:+: "var x = 1; f( ((a: ( 5 |string)) => \x7ba\x7d) ) ;".toList
        ∧ fragment <:+: text := by
  have hsame : (readProgram "var x = 1; f( ((a: ( 5 |string)) => \x7ba\x7d) ) ;".toList
      .initial).result.toOption.map (fun ns => ns.map fun n => (n.isInvalid,
        n.same (.invalid "f( ((a: ( 5 |string)) => \x7ba\x7d) )".toList "5".toList
          "lambda: expected a type name".toList))) = some [(false, false), (true, true)] := by
    decide +kernel
  have h := (sentinel_locates_fault "var x = 1; f( ((a: ( 5 |string)) => \x7ba\x7d) ) ;".toList
    .initial).2
  rcases hr : (readProgram "var x = 1; f( ((a: ( 5 |string)) => \x7ba\x7d) ) ;".toList
    .initial).result with e | ns
  · rw [hr] at hsame
    cases hsame
  rw [hr] at hsame
  obtain ⟨n, ns, rfl⟩ := List.exists_cons_of_ne_nil (l := ns) (by rintro rfl; cases hsame)
  simp only [Except.toOption, Option.map_some, List.map_cons, Option.some.injEq, List.cons.injEq,
    Prod.mk.injEq, List.map_eq_cons_iff, List.map_eq_nil_iff] at hsame
  obtain ⟨⟨hn, _⟩, m, _, rfl, ⟨hm, hsame⟩, rfl⟩ := hsame
  refine ⟨n, m, rfl, hsame, ?_, ?_⟩
  · refine (h _ hr n (List.mem_cons_self ..)).resolve_right ?_
    rintro ⟨text, fragment, reason, rfl, _⟩
    cases hn
  · refine (h _ hr m (by simp)).resolve_left ?_
    intro hwell
    rw [hwell.isInvalid] at hm
    cases hm

end UnionTyping
