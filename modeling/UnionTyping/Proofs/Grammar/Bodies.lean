/-
  UnionTyping/Proofs/Grammar/Bodies.lean
  ======================================
  **Bodies, programs and the short form** — the body of a lambda without
  parameters that shares the scope is a program, and the short form of a lambda
  is such a lambda with one statement.

  A body and a program are cut at the same semicolons, but they end differently:
  of several statements of a body the last one has a semicolon too, a program
  drops one semicolon at its end and skips blank statements wherever they stand.
  A readable body is balanced, so that the semicolon at its end stands at the top
  level, and what the program skips is the empty piece behind it
  (`map_trim_statementTexts_of_bodyItems?`).
-/
import UnionTyping.Proofs.Grammar.Composition
import UnionTyping.Proofs.Grammar.Programs

namespace UnionTyping

open Text

/-! ### Statements of bodies and of programs -/

section

variable {t : Text} {env env' : TypeEnv}

/-- What a chain of readings reads is read as a list of statements. -/
theorem readAll_of_chain {ts : List Text} {ns : List Node} (h : Chain Reads ts env ns env') :
    (readAll env ts).result = .ok ns ∧ (readAll env ts).env = env' :=
  chain_answers_iff.1 (h.imp_mem fun _ _ _ _ _ hr => read_of_reads hr)

theorem segments_of_bodyItems? {items : List Text} (h : bodyItems? t = some items)
    (hb : ∀ u ∈ items, ¬Blank u) : segments (trim t) = items.map trim := by
  have hkeep : (items.map trim).filter (fun u => !u.isEmpty) = items.map trim := by
    rw [List.filter_eq_self]
    intro u hu
    obtain ⟨v, hv, rfl⟩ := List.mem_map.1 hu
    have hne : trim v ≠ [] := fun he => hb v hv (trim_eq_nil_iff.1 he)
    simpa using hne
  rcases splitTop_of_bodyItems? h with hp | ⟨blank, hblank, hp⟩
  · rw [segments, hp, hkeep]
  · have hnil : trim blank = [] := trim_eq_nil_iff.2 hblank
    rw [segments, hp, List.map_append, List.filter_append, hkeep, List.map_singleton, hnil]
    exact List.append_nil _

/-- The statements of a body are those of the program with the same text. -/
theorem map_trim_statementTexts_of_bodyItems? {items : List Text}
    (h : bodyItems? t = some items) (hs : ∀ u ∈ items, Sealed u ∧ ¬Blank u) :
    (statementTexts t).map trim = items.map trim := by
  have htop := (balanced_of_bodyItems? h fun u hu => (hs u hu).1).atTop
  obtain ⟨l, r, ht, hl, hr⟩ := exists_eq_append_trim t
  have hsegments : segments t = segments (trim t) := by
    conv_lhs => rw [ht, segments_blank_append hl, segments_append_blank hr]
  rw [map_trim_statementTexts_of_endsSeparated (endsSeparated_of_atTop htop), hsegments,
    segments_of_bodyItems? h fun u hu => (hs u hu).2]

theorem readProgram_of_chain {items : List Text} {ns : List Node} (h : bodyItems? t = some items)
    (hc : Chain Reads items env ns env') :
    (readProgram t env).result = .ok ns ∧ (readProgram t env).env = env' := by
  rw [readProgram_of_map_trim (map_trim_statementTexts_of_bodyItems? h (items_of_chain hc))]
  exact readAll_of_chain hc

end

/-! ### Lambdas that are only a body -/

section

variable {b : Text} {env env' : TypeEnv} {head : LambdaHead} {body : List Node}

/-- The text of a lambda without parameters that shares the scope. -/
def sharedText (b : Text) : Text := ['(', ')', '~', '>', '\x7b'] ++ b ++ ['\x7d']

theorem sharedText_eq (b : Text) : sharedText b = lambdaText [] [] false none false b := by
  simp [sharedText, lambdaText, genericsText, parametersText, resultText, writtenText, lambdaArrow]

/-- A signature is empty or begins with a colon, so that no arrow can stand in it. -/
theorem resultPart?_of_stem?_arrow {w signature : Text} {own : Bool}
    (h : stem? (trimEnd (['~', '>'] ++ '\x7b' :: w)) = some (signature, own)) :
    resultPart? signature = none := by
  have htrimmed : Trimmed ['~', '>', '\x7b'] := .of_forall (by decide)
  have hend : trimEnd (['~', '>'] ++ '\x7b' :: w) = '~' :: '>' :: '\x7b' :: trimEnd w :=
    trimEnd_append htrimmed.2
  have hsignature := eq_of_stem? h
  rw [hend] at hsignature
  cases hresult : resultPart? signature with
  | none => rfl
  | some result =>
    cases signature with
    | nil => cases own <;> cases hsignature
    | cons d signature =>
      obtain rfl := (List.cons.inj hsignature).1
      have hhead : trim ('~' :: signature) = '~' :: trimEnd signature :=
        trim_append (t := ['~']) (Trimmed.of_forall (by decide)) (List.cons_ne_nil _ _)
      rcases eq_of_resultPart? hresult with ⟨he, _⟩ | ⟨u, he, _⟩
      · rw [hhead] at he
        cases he
      · rw [hhead] at he
        cases he

/-- The body is everything between the brackets: if a bracket inside began it, the
    arrow would stand in the signature. -/
theorem eq_of_lambdaShape?_sharedText {shape : LambdaShape}
    (h : lambdaShape? (sharedText b) = some shape) : shape = ⟨none, [], none, false, b⟩ := by
  have harrow : Balanced ['~', '>'] := balanced_arrow (Or.inl rfl)
  have htext : sharedText b = '(' :: ([] ++ ')' :: (['~', '>'] ++ '\x7b' :: (b ++ ['\x7d']))) := by
    simp [sharedText]
  have hsplit : splitGenerics? (sharedText b) = some (none, sharedText b) := by
    rw [htext]
    rfl
  have hgroup : group? .round (sharedText b)
      = some ([], ['~', '>'] ++ '\x7b' :: (b ++ ['\x7d'])) := by
    rw [htext]
    exact group?_append (b := .round) balanced_nil (closesAfter_of_ne (by decide))
  have htrim : trim (['~', '>'] ++ '\x7b' :: (b ++ ['\x7d']))
      = ['~', '>'] ++ '\x7b' :: (b ++ ['\x7d']) :=
    trim_eq_self (trimmed_cons_append (t := '>' :: '\x7b' :: b) (by decide) (by decide))
  simp only [lambdaShape?, hsplit, hgroup, htrim, Option.bind_eq_bind, Option.bind_some,
    Option.bind_eq_some_iff, Prod.exists] at h
  obtain ⟨before, inner, hlast, signature, own, hstem, result, hresult, h⟩ := h
  obtain rfl := Option.some.inj h
  obtain ⟨w, hw, rfl⟩ :=
    exists_of_lastGroup?_append (b := .curly) harrow (List.cons_ne_nil _ _) hlast
  obtain ⟨heq, _⟩ := eq_of_lastGroup? hlast
  cases w with
  | nil =>
    have hinner : b = inner := by simpa [Bracket.opening, Bracket.closing] using heq
    have hnil : stem? (trimEnd (['~', '>'] ++ [])) = some ([], false) := by decide
    rw [hnil] at hstem
    obtain ⟨rfl, rfl⟩ := Prod.mk.inj (Option.some.inj hstem)
    obtain rfl := Option.some.inj hresult
    rw [hinner]
  | cons c w =>
    obtain rfl : c = '\x7b' := by
      obtain ⟨v, hv⟩ := hw
      exact (List.cons.inj hv).1
    rw [resultPart?_of_stem?_arrow hstem] at hresult
    cases hresult

theorem bracketed_sharedText : Bracketed (sharedText b) := by
  rw [sharedText_eq]
  exact bracketed_lambdaText

/-- Such a lambda is read by reading its body where it stands. -/
theorem reads_sharedText_iff :
    Reads (sharedText b) env (.lambda head body) env'
      ↔ ∃ items type, bodyItems? b = some items ∧ Chain Reads items env body env'
        ∧ (typeOfBody env' body).result = .ok type
        ∧ head = ⟨[], [], type, false, false, false, false⟩ := by
  constructor
  · intro h
    obtain ⟨k, hk, hf⟩ := reads_iff.1 h
    rw [bracketed_sharedText.stripParens] at hk hf
    have hfits := fits_of_formShape? hk
    cases hf with
    | lambda hg hp hd hi hc ht _ =>
      obtain rfl := eq_of_lambdaShape?_sharedText hfits
      obtain rfl := Except.ok.inj hg
      obtain ⟨rfl, rfl⟩ := Prod.mk.inj (Except.ok.inj hp)
      obtain rfl := Except.ok.inj hd
      exact ⟨_, _, hi, hc, ht, rfl⟩
    | short =>
      have hnone : unwrap? .square (sharedText b) = none :=
        unwrap?_of_head (by simp +decide [sharedText])
      rw [FormShape.Fits, hnone] at hfits
      cases hfits
  · rintro ⟨items, type, hi, hc, ht, rfl⟩
    have hb : Balanced b := balanced_of_bodyItems? hi fun u hu => (items_of_chain hc u hu).1
    have hp : CanonicalParameters [] false := ⟨nofun, nofun, nofun⟩
    have hshape : lambdaShape? (sharedText b) = some ⟨none, [], none, false, b⟩ := by
      rw [sharedText_eq]
      exact lambdaShape?_lambdaText nofun hp nofun hb
    rw [reads_iff_of_lambdaShape? bracketed_sharedText hshape]
    exact @Formed.lambda Reads _ env _ [] [] false none items body type env' rfl rfl rfl hi hc ht
      nofun

/-- The body of a lambda that is only a body is a program: read as one it has the
    same statements and leaves the same environment. -/
theorem readProgram_of_lambda (b : Text) (env : TypeEnv) (head : LambdaHead) (body : List Node)
    (h : (read (sharedText b) env).result = .ok (.lambda head body)) :
    (readProgram b env).result = .ok body
      ∧ (readProgram b env).env = (read (sharedText b) env).env := by
  obtain ⟨items, _, hitems, hc, _⟩ := reads_sharedText_iff.1 (reads_of_read h rfl)
  exact readProgram_of_chain hitems hc

/-- Brackets and semicolons in a string, a lambda inside, blanks at the end. -/
theorem readProgram_of_lambda_nested :
    let b := "var s = \"\x7d; \x7b\"; var f = (x:number)=>\x7bx\x7d; f(1); ".toList
    ∃ head body, (read (sharedText b) .initial).result = .ok (.lambda head body)
      ∧ (Node.lambda head body).text
        = "()~>\x7bvar s = \"\x7d; \x7b\";var f = (x:number[])=>\x7bx\x7d;f(1);\x7d".toList
      ∧ (readProgram b .initial).result = .ok body
      ∧ (readProgram b .initial).env = (read (sharedText b) .initial).env := by
  intro b
  have h : ((read (sharedText b) .initial).node?.bind Node.lambda?).map
      (fun l => (Node.lambda l.1 l.2).text)
      = some "()~>\x7bvar s = \"\x7d; \x7b\";var f = (x:number[])=>\x7bx\x7d;f(1);\x7d".toList := by
    decide +kernel
  obtain ⟨⟨head, body⟩, hlambda, htext⟩ := Option.map_eq_some_iff.1 h
  have hread := Reading.result_of_lambda? hlambda
  exact ⟨head, body, hread, htext, readProgram_of_lambda b .initial head body hread⟩

/-! ### The short form -/

/-- A text without a semicolon at the top level is one statement. -/
theorem bodyItems?_of_avoids {e : Text} (ha : Avoids (· == ';') (trim e)) (hb : ¬Blank e) :
    bodyItems? e = some [trim e] := by
  have hne : trim e ≠ [] := fun he => hb (trim_eq_nil_iff.1 he)
  simp [bodyItems?, splitTop_eq_singleton ha, hne]

theorem exists_of_reads_short {e : Text}
    (h : Reads ('[' :: (e ++ [']'])) env (.lambda head body) env') :
    ∃ n type, Reads e env n env' ∧ (typeOf env' n).result = .ok type ∧ body = [n]
      ∧ head = ⟨[], [], type, false, false, false, false⟩ := by
  have htrimmed : Trimmed ('[' :: (e ++ [']'])) := trimmed_cons_append (by decide) (by decide)
  have hround : unwrap? .round ('[' :: (e ++ [']'])) = none := unwrap?_cons (by decide)
  obtain ⟨k, hk, hf⟩ := reads_iff.1 h
  rw [stripParens_eq_self htrimmed hround] at hk hf
  have hfits := fits_of_formShape? hk
  cases hf with
  | lambda =>
    -- the text ends with a square bracket and not with a body
    have hnone : lambdaShape? ('[' :: (e ++ [']'])) = none :=
      lambdaShape?_of_getLast htrimmed (by rw [← List.cons_append, List.getLast?_concat]; decide)
    rw [FormShape.Fits, hnone] at hfits
    cases hfits
  | @short inner n type _ hn ht =>
    obtain rfl : e = inner := by
      have heq := eq_of_unwrap? (b := .square) hfits
      simpa [Bracket.opening, Bracket.closing] using heq
    exact ⟨n, type, hn, ht, rfl, rfl⟩

/-- The short form of a lambda is the lambda with its expression as the body. -/
theorem read_of_short (e : Text) (env : TypeEnv) (head : LambdaHead) (body : List Node)
    (h : (read ('[' :: (e ++ [']'])) env).result = .ok (.lambda head body)) :
    (read (sharedText e) env).result = .ok (.lambda head body)
      ∧ (read (sharedText e) env).env = (read ('[' :: (e ++ [']'])) env).env := by
  obtain ⟨n, type, hn, ht, rfl, rfl⟩ := exists_of_reads_short (reads_of_read h rfl)
  apply read_of_reads
  rw [reads_sharedText_iff]
  have hs := sealed_of_reads (reads_trim.2 hn)
  have hitems : bodyItems? e = some [trim e] :=
    bodyItems?_of_avoids (hs.avoids (by decide)) (not_blank_of_reads hn)
  exact ⟨[trim e], type, hitems, .cons (reads_trim.2 hn) .nil, ht, rfl⟩

/-- The expression binds a name whose value has brackets of its own. -/
theorem read_of_short_declaration :
    let e := "var xs = \x7blength(\")]\"), 2\x7d".toList
    ∃ head body, (read ('[' :: (e ++ [']'])) .initial).result = .ok (.lambda head body)
      ∧ (Node.lambda head body).text = "()~>\x7bvar xs = \x7blength(\")]\"),2\x7d\x7d".toList
      ∧ (read (sharedText e) .initial).result = .ok (.lambda head body)
      ∧ (read (sharedText e) .initial).env = (read ('[' :: (e ++ [']'])) .initial).env := by
  intro e
  have h : ((read ('[' :: (e ++ [']'])) .initial).node?.bind Node.lambda?).map
      (fun l => (Node.lambda l.1 l.2).text)
      = some "()~>\x7bvar xs = \x7blength(\")]\"),2\x7d\x7d".toList := by decide +kernel
  obtain ⟨⟨head, body⟩, hlambda, htext⟩ := Option.map_eq_some_iff.1 h
  have hread := Reading.result_of_lambda? hlambda
  exact ⟨head, body, hread, htext, read_of_short e .initial head body hread⟩

end

end UnionTyping
