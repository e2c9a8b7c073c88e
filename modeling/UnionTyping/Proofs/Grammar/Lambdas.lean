/-
  UnionTyping/Proofs/Grammar/Lambdas.lean
  =======================================
  **Lambdas of readable statements** — a signature and readable statements in
  curly brackets are the lambda with that signature and those statements.  The
  signature is cut into its generics, its parameters and its written type as it
  was put together, and the body at its semicolons.
-/
import UnionTyping.Proofs.Grammar.Statements

namespace UnionTyping

open Text

/-! ### Bodies -/

section

variable {ts : List Text}

theorem flatMap_semicolon (ts : List Text) :
    ts.flatMap (· ++ [';']) = [';'].intercalate (ts ++ [[]]) := by
  induction ts with
  | nil => rfl
  | cons t ts ih =>
    rw [List.flatMap_cons, ih]
    cases ts with
    | nil => simp [List.intercalate_cons_cons]
    | cons u ts => simp only [List.cons_append, List.intercalate_cons_cons]

/-- Several statements with a semicolon after each. -/
theorem splitTop_flatMap_semicolon (hs : ∀ t ∈ ts, Sealed t) :
    splitTop ';' (ts.flatMap (· ++ [';'])) = ts ++ [[]] := by
  rw [flatMap_semicolon]
  apply splitTop_intercalate (by decide) (by decide) (by simp)
  intro t ht
  rcases List.mem_append.1 ht with ht | ht
  · exact ⟨(hs t ht).toBalanced, (hs t ht).avoids (by decide)⟩
  · rw [List.mem_singleton.1 ht]
    exact ⟨balanced_nil, sealed_nil.avoids (by decide)⟩

theorem trimmed_flatMap_semicolon {t : Text} (ht : Trimmed t) (hne : t ≠ []) :
    Trimmed ((t :: ts).flatMap (· ++ [';'])) := by
  have hsemicolon : Trimmed [';'] := Trimmed.of_forall (by decide)
  rcases List.eq_nil_or_concat ts with rfl | ⟨us, u, rfl⟩
  · simpa using ht.append hsemicolon
  · have htext : (t :: us.concat u).flatMap (· ++ [';'])
        = t ++ ((';' :: us.flatMap (· ++ [';']) ++ u) ++ [';']) := by simp
    rw [htext]
    exact ht.around hsemicolon hne (List.cons_ne_nil _ _)

theorem bodyItems?_of_splitTop {t : Text} (htrim : Trimmed t) (hne : ts ≠ [])
    (h : splitTop ';' t = ts ++ [[]]) : bodyItems? t = some ts := by
  have hempty : t.isEmpty = false := by
    cases t with
    | cons => rfl
    | nil =>
      have hlength := congrArg List.length h
      rw [List.length_append] at hlength
      exact absurd (List.eq_nil_of_length_eq_zero (Nat.succ.inj hlength).symm) hne
  have hblank : allBlank ([] : Text) = true := rfl
  simp [bodyItems?, trim_eq_self htrim, hempty, h, hne, hblank]

/-- The statements of a body are found again between its semicolons. -/
theorem bodyItems?_bodyText (hs : ∀ t ∈ ts, Sealed t) (ht : ∀ t ∈ ts, Trimmed t)
    (hb : ∀ t ∈ ts, ¬Blank t) : bodyItems? (bodyText ts) = some ts := by
  have hne : ∀ t ∈ ts, t ≠ [] := by
    rintro t hm rfl
    exact hb [] hm blank_nil
  match ts with
  | [] => rfl
  | [t] =>
    have hm : t ∈ [t] := List.mem_singleton_self t
    have hsplit := splitTop_eq_singleton ((hs t hm).avoids (d := ';') (by decide))
    simp [bodyItems?, bodyText, trim_eq_self (ht t hm), hsplit, hne t hm]
  | t :: u :: ts =>
    have hm : t ∈ t :: u :: ts := List.mem_cons_self ..
    exact bodyItems?_of_splitTop (trimmed_flatMap_semicolon (ht t hm) (hne t hm))
      (List.cons_ne_nil _ _) (splitTop_flatMap_semicolon hs)

end

/-! ### Signatures -/

section

variable {generics : List Name} {params : List Parameter} {variadic own : Bool}
  {declared : Option SourceType} {body : Text}

/-- The arrow of a lambda. -/
def lambdaArrow (ownScope : Bool) : Text := if ownScope then ['=', '>'] else ['~', '>']

/-- What stands between the parameters and the body. -/
def resultText (declared : Option SourceType) (ownScope : Bool) : Text :=
  writtenText declared ++ lambdaArrow ownScope

theorem sealed_lambdaArrow (own : Bool) : Sealed (lambdaArrow own) := by
  cases own
  · exact sealed_arrow (Or.inl rfl)
  · exact sealed_arrow (Or.inr rfl)

/-- The arrow behind a signature is found again. -/
theorem stem?_lambdaArrow (signature : Text) (own : Bool) :
    stem? (trimEnd (signature ++ lambdaArrow own)) = some (signature, own) := by
  have hend : trimEnd (signature ++ lambdaArrow own) = signature ++ lambdaArrow own := by
    apply trimEnd_eq_self
    intro c hc
    cases own <;> rw [List.getLast?_append] at hc <;>
      obtain rfl := Option.some.inj hc <;> decide
  rw [hend]
  cases own with
  | true =>
    have h₁ : before? ['>'] (signature ++ lambdaArrow true) = some (signature ++ ['=']) :=
      before?_eq_some_iff.2 (by simp [lambdaArrow])
    have h₂ : before? ['='] (signature ++ ['=']) = some signature := before?_eq_some_iff.2 rfl
    simp [stem?, h₁, h₂]
  | false =>
    have h₁ : before? ['>'] (signature ++ lambdaArrow false) = some (signature ++ ['~']) :=
      before?_eq_some_iff.2 (by simp [lambdaArrow])
    have h₂ : before? ['='] (signature ++ ['~']) = none := by
      cases hb : before? ['='] (signature ++ ['~']) with
      | none => rfl
      | some r =>
        have h := congrArg List.getLast? (before?_eq_some_iff.1 hb)
        rw [List.getLast?_concat, List.getLast?_concat] at h
        cases h
    have h₃ : before? ['~'] (signature ++ ['~']) = some signature := before?_eq_some_iff.2 rfl
    simp [stem?, h₁, h₂, h₃]

theorem resultPart?_writtenText (hd : ∀ type, declared = some type → SourceType.Canonical type) :
    resultPart? (writtenText declared) = some (declared.map SourceType.text) := by
  cases declared with
  | none => rfl
  | some type =>
    have henclosed := (readsBack_type type (hd type rfl)).enclosed
    have hcolon : Trimmed [':'] := Trimmed.of_forall (by decide)
    have htrim : trim (writtenText (some type)) = ':' :: SourceType.text type :=
      trim_eq_self (hcolon.append henclosed.trimmed)
    have ha : after? [':'] (':' :: SourceType.text type) = some (SourceType.text type) :=
      after?_eq_some_iff.2 rfl
    simp [resultPart?, htrim, ha, trim_eq_self henclosed.trimmed]

end

/-! ### Headings -/

/-- What a lambda begins with: generics, if it has any, and parameters, each in
    brackets of their own. -/
inductive Heading : Text → Option Text → Text → Prop
  | plain {round params : Text} : unwrap? .round round = some params → Heading round none params
  | generic {square blank round generics params : Text} :
      unwrap? .square square = some generics → Blank blank → unwrap? .round round = some params →
      Heading (square ++ (blank ++ round)) (some generics) params

section

variable {heading params signature body : Text} {generics : Option Text}

/-- The text of a lambda from its heading, its signature and its body. -/
def headedText (heading signature : Text) (own : Bool) (body : Text) : Text :=
  heading ++ (signature ++ lambdaArrow own ++ '\x7b' :: (body ++ ['\x7d']))

theorem Heading.pieces (h : Heading heading generics params) (rest : Text) :
    ∃ tail, splitGenerics? (heading ++ rest) = some (generics, tail)
      ∧ group? .round tail = some (params, rest) := by
  cases h with
  | plain hp =>
    refine ⟨heading ++ rest, ?_, group?_of_unwrap? hp rest⟩
    rw [eq_of_unwrap? hp]
    rfl
  | @generic square blank round _ _ hs hb hp =>
    refine ⟨round ++ rest, ?_, group?_of_unwrap? hp rest⟩
    have hgroup := group?_of_unwrap? hs (blank ++ (round ++ rest))
    have hhead : (square ++ (blank ++ (round ++ rest))).head? = some '[' := by
      rw [eq_of_unwrap? hs]
      rfl
    have htail : trimStart (blank ++ (round ++ rest)) = round ++ rest := by
      rw [trimStart_append_blank hb]
      apply trimStart_of_head? (c := '(') _ (by decide)
      rw [eq_of_unwrap? hp]
      rfl
    rw [List.append_assoc, List.append_assoc, splitGenerics?, if_pos hhead, hgroup]
    simp only [Option.map_some, htail]

theorem Heading.exists_head (h : Heading heading generics params) (rest : Text) :
    ∃ c u, heading ++ rest = c :: u ∧ (c = '(' ∨ c = '[') := by
  cases h with
  | plain hp =>
    rw [eq_of_unwrap? hp]
    exact ⟨'(', _, rfl, Or.inl rfl⟩
  | generic hs =>
    rw [eq_of_unwrap? hs]
    exact ⟨'[', _, rfl, Or.inr rfl⟩

/-- The pieces of a lambda are found again if its signature ends at the top level and
    its body is one group, whatever blank space stands around the signature and the
    arrow. -/
theorem lambdaShape?_heading_append {result : Option Text} {before after : Text} (signature : Text)
    (own : Bool) (hh : Heading heading generics params) (hbefore : Blank before)
    (hafter : Blank after)
    (hs : ∀ c, signature.head? = some c → isBlank c = false)
    (htop : (scan .start signature).atTop = true) (hr : resultPart? signature = some result)
    (hb : isGroup .curly ('\x7b' :: (body ++ ['\x7d'])) = true) :
    lambdaShape? (heading ++ (before ++ (signature ++ (lambdaArrow own
        ++ (after ++ '\x7b' :: (body ++ ['\x7d'])))))) = some ⟨generics, params, result, own, body⟩ := by
  have harrow := sealed_lambdaArrow own
  obtain ⟨tail, hsplit, hgroup⟩ := hh.pieces
    (before ++ (signature ++ (lambdaArrow own ++ (after ++ '\x7b' :: (body ++ ['\x7d'])))))
  have htrim : trim (before ++ (signature ++ (lambdaArrow own
        ++ (after ++ '\x7b' :: (body ++ ['\x7d'])))))
      = (signature ++ lambdaArrow own ++ after) ++ '\x7b' :: (body ++ ['\x7d']) := by
    rw [trim_blank_append hbefore, ← List.append_assoc, ← List.append_assoc]
    apply trim_eq_self
    constructor
    · intro c hc
      cases signature with
      | nil => cases own <;> obtain rfl := Option.some.inj hc <;> decide
      | cons d signature => exact hs c hc
    · intro c hc
      rw [← List.cons_append, ← List.append_assoc, List.getLast?_concat] at hc
      obtain rfl := Option.some.inj hc
      decide
  have htop' : (scan .start (signature ++ lambdaArrow own ++ after)).atTop = true := by
    rw [atTop_append_blank_iff hafter, scan_append]
    exact harrow.toBalanced.atTop_scan htop (harrow.fits _)
  have hlast := lastGroup?_eq_some_iff.2 ⟨htrim, htop', rfl, hb⟩
  have hstem : stem? (trimEnd (signature ++ lambdaArrow own ++ after)) = some (signature, own) := by
    rw [trimEnd_append_blank hafter, stem?_lambdaArrow]
  simp only [lambdaShape?, hsplit, hgroup, hlast, hstem, hr, Option.bind_eq_bind, Option.bind_some]
  rfl

theorem lambdaShape?_headedText {result : Option Text} {own : Bool}
    (hh : Heading heading generics params)
    (hs : ∀ c, signature.head? = some c → isBlank c = false) (hbal : Balanced signature)
    (hr : resultPart? signature = some result)
    (hb : unwrap? .curly ('\x7b' :: (body ++ ['\x7d'])) = some body) :
    lambdaShape? (headedText heading signature own body)
      = some ⟨generics, params, result, own, body⟩ := by
  have h := lambdaShape?_heading_append signature own hh blank_nil blank_nil hs hbal.atTop hr
    (isGroup_of_unwrap? hb)
  rwa [List.nil_append, List.nil_append, ← List.append_assoc signature] at h

/-- A written result type stands behind a colon. -/
theorem resultPart?_colon (written : Text) :
    resultPart? (':' :: written) = some (some (trim written)) := by
  have htrim : trim (':' :: written) = ':' :: trimEnd written :=
    trim_append (t := [':']) (Trimmed.of_forall (by decide)) (List.cons_ne_nil _ _)
  have hafter : after? [':'] (':' :: trimEnd written) = some (trimEnd written) :=
    after?_eq_some_iff.2 rfl
  simp [resultPart?, htrim, hafter, trim_trimEnd]

end

section

variable {generics : List Name} {params : List Parameter} {variadic own : Bool}
  {declared : Option SourceType} {body : Text}

/-- The text of a lambda from its pieces. -/
def lambdaText (generics : List Name) (params : List Parameter) (variadic : Bool)
    (declared : Option SourceType) (own : Bool) (body : Text) : Text :=
  genericsText generics ++ '(' :: (parametersText params variadic ++ ')' ::
    (resultText declared own ++ '\x7b' :: (body ++ ['\x7d'])))

/-- The generics and the parameters of a lambda. -/
def headingText (generics : List Name) (params : List Parameter) (variadic : Bool) : Text :=
  genericsText generics ++ '(' :: (parametersText params variadic ++ [')'])

theorem lambdaText_eq_headedText :
    lambdaText generics params variadic declared own body
      = headedText (headingText generics params variadic) (writtenText declared) own body := by
  simp [lambdaText, headedText, headingText, resultText]

theorem heading_headingText (hg : ∀ g ∈ generics, isName g = true)
    (hp : CanonicalParameters params variadic) :
    Heading (headingText generics params variadic) (genericsPiece generics)
      (parametersText params variadic) := by
  have hround : unwrap? .round ('(' :: (parametersText params variadic ++ [')']))
      = some (parametersText params variadic) :=
    unwrap?_group (b := .round) (parseParameters_text hp).1 (closesAfter_of_ne (by decide))
  unfold headingText genericsText genericsPiece
  split
  · exact .plain hround
  · have hb := (genericNames_of_listed (listed_intercalate (forall₂_nameText hg))).1
    have hsquare := unwrap?_group (b := .square) hb (closesAfter_of_ne (by decide))
    exact .generic hsquare blank_nil hround

theorem lambdaShape?_lambdaText (hg : ∀ g ∈ generics, isName g = true)
    (hp : CanonicalParameters params variadic)
    (hd : ∀ type, declared = some type → SourceType.Canonical type) (hb : Balanced body) :
    lambdaShape? (lambdaText generics params variadic declared own body)
      = some ⟨genericsPiece generics, parametersText params variadic,
          declared.map SourceType.text, own, body⟩ := by
  have hwritten := (balanced_writtenText hd).1.toBalanced
  rw [lambdaText_eq_headedText]
  refine lambdaShape?_headedText (heading_headingText hg hp) ?_ hwritten
    (resultPart?_writtenText hd) (unwrap?_group (b := .curly) hb (closesAfter_of_ne (by decide)))
  intro c hc
  cases declared with
  | none => cases hc
  | some type =>
    obtain rfl := Option.some.inj hc
    decide

end

/-! ### Lambdas -/

section

variable {generics : List Name} {params : List Parameter} {variadic own : Bool}
  {declared : Option SourceType} {body : Text}

/-- A text that begins like a heading and ends like a body. -/
structure Bracketed (t : Text) : Prop where
  head : ∃ c u, t = c :: u ∧ (c = '(' ∨ c = '[')
  last : t.getLast? = some '\x7d'

theorem Bracketed.trimmed {t : Text} (h : Bracketed t) : Trimmed t := by
  constructor
  · intro c hc
    obtain ⟨d, u, rfl, hbracket⟩ := h.head
    obtain rfl := Option.some.inj hc
    rcases hbracket with rfl | rfl <;> decide
  · intro c hc
    rw [h.last] at hc
    obtain rfl := Option.some.inj hc
    decide

theorem Bracketed.stripParens {t : Text} (h : Bracketed t) : Text.stripParens t = t := by
  refine stripParens_eq_self h.trimmed (unwrap?_of_getLast ?_)
  rw [h.last]
  decide

/-- A text in the shape of a lambda is one: the earlier forms do not begin with its
    bracket or do not end with its body. -/
theorem formShape?_of_lambdaShape? {t : Text} {shape : LambdaShape} (ht : Bracketed t)
    (h : lambdaShape? t = some shape) : formShape? t = some (.lambda shape) := by
  have hcall : callForm? t = none := callForm?_of_getLast ht.trimmed (by rw [ht.last]; decide)
  obtain ⟨c, u, rfl, hbracket⟩ := ht.head
  have hc : isNumeralChar c = false ∧ c ≠ '"' ∧ c ≠ '&' ∧ c ≠ '\x7b' := by
    rcases hbracket with rfl | rfl <;> decide
  obtain ⟨hnum, hquote, hsign, hcurly⟩ := hc
  have h₁ : isNumeral (c :: u) = false := isNumeral_of_head rfl hnum
  have h₂ := quoted?_of_head (u := u) hquote
  have h₃ := referenceShape?_of_head (u := u) hsign
  have h₄ : unwrap? .curly (c :: u) = none := unwrap?_cons hcurly
  simp [formShape?, hcall, h₁, h₂, h₃, h₄, h]

/-- A text in the shape of a lambda is read as one. -/
theorem reads_iff_of_lambdaShape? {t : Text} {shape : LambdaShape} {env env' : TypeEnv} {n : Node}
    (ht : Bracketed t) (h : lambdaShape? t = some shape) :
    Reads t env n env' ↔ Formed Reads t env (.lambda shape) n env' := by
  rw [reads_iff, ht.stripParens, formShape?_of_lambdaShape? ht h]
  constructor
  · rintro ⟨k, hk, hf⟩
    obtain rfl := Option.some.inj hk
    exact hf
  · exact fun hf => ⟨_, rfl, hf⟩

theorem bracketed_headedText {heading signature params : Text} {pieces : Option Text}
    (hh : Heading heading pieces params) : Bracketed (headedText heading signature own body) where
  head := hh.exists_head _
  last := by
    rw [headedText, ← List.cons_append, ← List.append_assoc, ← List.append_assoc,
      List.getLast?_concat]

theorem bracketed_lambdaText :
    Bracketed (lambdaText generics params variadic declared own body) where
  head := by
    unfold lambdaText genericsText
    split
    · exact ⟨'(', _, rfl, Or.inl rfl⟩
    · exact ⟨'[', _, rfl, Or.inr rfl⟩
  last := by
    rw [lambdaText_eq_headedText, headedText, ← List.cons_append, ← List.append_assoc,
      ← List.append_assoc, List.getLast?_concat]

theorem reads_lambda {ts : List Text} {ns : List Node} {inferred : SourceType}
    {env env₁ : TypeEnv} (hg : ∀ g ∈ generics, isName g = true)
    (hp : CanonicalParameters params variadic)
    (hd : ∀ type, declared = some type → SourceType.Canonical type)
    (hc : Chain Reads ts (env.bindParameters params) ns env₁) (hts : ∀ t ∈ ts, Trimmed t)
    (ht : (typeOfBody env₁ ns).result = .ok inferred)
    (hs : ∀ type, declared = some type → (type == inferred) = true) :
    Reads (lambdaText generics params variadic declared own (bodyText ts)) env
      (.lambda ⟨generics, params, declared.getD inferred, declared.isSome, own, false, variadic⟩ ns)
      (if own then env else env₁) := by
  have hitems := items_of_chain hc
  have hbody := bodyItems?_bodyText (fun t hm => (hitems t hm).1) hts fun t hm => (hitems t hm).2
  have hbalanced := balanced_of_bodyItems? hbody fun t hm => (hitems t hm).1
  have hshape : lambdaShape? (lambdaText generics params variadic declared own (bodyText ts)) = _ :=
    lambdaShape?_lambdaText hg hp hd hbalanced
  have hresult : (declared.map SourceType.text).mapM parseType = .ok declared := by
    cases declared with
    | none => rfl
    | some type =>
      rw [Option.map_some, Option.mapM_some, parseType_text (hd type rfl)]
      rfl
  rw [reads_iff_of_lambdaShape? bracketed_lambdaText hshape]
  exact .lambda (genericNames_genericsPiece hg) (parseParameters_text hp).2 hresult hbody hc ht hs

end

end UnionTyping
