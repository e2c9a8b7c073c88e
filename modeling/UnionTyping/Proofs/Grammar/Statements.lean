/-
  UnionTyping/Proofs/Grammar/Statements.lean
  ==========================================
  **Statements of readable values** — a keyword or a target with an equals sign,
  a blank and a readable text is the statement with that value.  A call or a
  member would have to begin with the same keyword or sign, and no operand
  does; so nothing inside the value takes the statement apart.
-/
import UnionTyping.Proofs.Grammar.Compose
import UnionTyping.Proofs.Grammar.Signs

namespace UnionTyping

open Text

/-! ### Blanks before and behind a value -/

section

variable {t u : Text} {env env' : TypeEnv} {n : Node}

theorem trim_statement {e : Text} (ht : Trimmed u) (hu : u ≠ []) (he : ¬Blank e) :
    trim (u ++ ' ' :: e) = u ++ ' ' :: trimEnd e := by
  rw [trim_append ht hu, ← List.singleton_append, trimEnd_append_of_not_blank he,
    List.singleton_append]

theorem reads_trimEnd : Reads (trimEnd t) env n env' ↔ Reads t env n env' := by
  rw [← reads_trim, trim_trimEnd, reads_trim]

theorem reads_trimStart : Reads (trimStart t) env n env' ↔ Reads t env n env' := by
  obtain ⟨l, hl, hb⟩ := exists_eq_append_trimStart t
  have h : trim t = trim (trimStart t) := by
    have h := trim_blank_append (t := trimStart t) hb
    rw [← hl] at h
    exact h
  rw [← reads_trim (t := t), h, reads_trim]

theorem trimStart_blank_cons (t : Text) : trimStart (' ' :: t) = trimStart t :=
  trimStart_append_blank blank_blank

theorem reads_blank_cons : Reads (' ' :: t) env n env' ↔ Reads t env n env' := by
  rw [← reads_trimStart (t := ' ' :: t), trimStart_blank_cons, reads_trimStart]

/-- A statement is read without the blanks behind its value. -/
theorem reads_statement {e : Text} (ht : Trimmed u) (hu : u ≠ []) (he : ¬Blank e) :
    Reads (u ++ ' ' :: e) env n env' ↔ Reads (u ++ ' ' :: trimEnd e) env n env' := by
  rw [← reads_trim, trim_statement ht hu he]

theorem trimmed_statement {e : Text} (ht : Trimmed u) (hu : u ≠ []) (he : ¬Blank e) :
    Trimmed (u ++ ' ' :: trimEnd e) := by
  rw [← trim_statement ht hu he]
  exact trimmed_trim _

end

/-! ### Return statements -/

section

variable {e : Text} {env env' : TypeEnv} {n : Node}

theorem afterKeyword?_append (word w : Text) :
    afterKeyword? word (word ++ ' ' :: w) = some (trimStart w) := by
  have ha : after? word (word ++ ' ' :: w) = some (' ' :: w) := after?_eq_some_iff.2 rfl
  have hb : isBlank ' ' = true := by decide
  simp [afterKeyword?, ha, hb, trimStart_blank_cons]

theorem head_isBlank {w : Text} : ∀ c, (' ' :: w).head? = some c → isBlank c = true := by
  intro c hc
  obtain rfl := Option.some.inj hc
  decide

theorem reads_return (h : Reads e env n env') :
    Reads ("return".toList ++ ' ' :: e) env (.ret (some n)) env' := by
  have hword : "return".toList ∈ reservedWords := by decide
  have hi := introduces_keyword hword
  have hne : "return".toList ≠ [] := by decide
  have hb := not_blank_of_reads h
  rw [reads_statement hi.trimmed hne hb]
  have htrim := trimmed_statement hi.trimmed hne hb
  have hv := reads_trimEnd.2 h
  generalize trimEnd e = w at htrim hv
  have hcall := hi.callForm?_eq_none (List.cons_ne_nil _ _) htrim head_isBlank
  have hmember := hi.memberForm?_eq_none (v := ' ' :: w) head_isBlank
  have hreturn : returnShape? ("return".toList ++ ' ' :: w) = some (some (trimStart w)) := by
    have hlen : "return".toList ++ ' ' :: w ≠ "return".toList := by
      intro he
      have := congrArg List.length he
      simp at this
    rw [returnShape?, if_neg hlen, afterKeyword?_append]
    cases hs : trimStart w with
    | nil =>
      have hblank := not_blank_of_reads (reads_trimStart.2 hv)
      rw [hs] at hblank
      exact absurd blank_nil hblank
    | cons => rfl
  refine reads_of_form (k := .giveBack (some (trimStart w))) htrim
    (unwrap?_append hi.toBalanced hne (List.cons_ne_nil _ _)) ?_ (.giveValue (reads_trimStart.2 hv))
  have hhead : "return".toList ++ ' ' :: w = 'r' :: ("eturn".toList ++ ' ' :: w) := rfl
  rw [hhead] at hcall hmember hreturn ⊢
  rw [formShape?_of_head (by decide) (by decide) (referenceShape?_of_head (by decide)) hcall
    (lambdaShape?_of_head (by decide) (by decide)), hmember, hreturn]
  rfl

end

/-! ### Declarations -/

/-- The type between a declared name and the equals sign, as it is written. -/
def writtenText : Option SourceType → Text
  | some t => ':' :: SourceType.text t
  | none => []

theorem balanced_writtenText {declared : Option SourceType}
    (hd : ∀ type, declared = some type → SourceType.Canonical type) :
    Sealed (writtenText declared) ∧ Unassigned (writtenText declared) := by
  cases declared with
  | none => exact ⟨sealed_nil, unassigned_of_not_mem (by simp [writtenText])⟩
  | some type =>
    have hp := parseType_text (hd type rfl)
    have hcolon : Sealed [':'] := sealed_of_plain (by decide)
    have hs := sealed_of_parseType hp
    exact ⟨hcolon.append hs, Unassigned.append hcolon.toBalanced
      (unassigned_of_not_mem (by decide)) (unassigned_of_parseType hp) (hs.fits _)⟩

/-- What stands behind the name of a declaration is cut at its equals sign. -/
theorem cutAssignment_writtenText {declared : Option SourceType} {w : Text}
    (hd : ∀ type, declared = some type → SourceType.Canonical type) :
    ∃ before, cutAssignment (trimStart (writtenText declared ++ ' ' :: '=' :: ' ' :: w))
        = some (before, ' ' :: w) ∧ Form.writtenType before = .ok declared := by
  cases declared with
  | none =>
    refine ⟨[], ?_, rfl⟩
    have hstart : trimStart (writtenText none ++ ' ' :: '=' :: ' ' :: w) = '=' :: ' ' :: w := by
      rw [writtenText, List.nil_append, trimStart_blank_cons]
      exact trimStart_eq_self fun c hc => by
        obtain rfl := Option.some.inj hc
        decide
    rw [hstart]
    apply cutFirst_append_cons (l := [])
    · rfl
    · intro l c r he
      cases l <;> cases he
  | some type =>
    have hback := readsBack_type type (hd type rfl)
    obtain ⟨hs, hu⟩ := balanced_writtenText hd
    refine ⟨writtenText (some type) ++ [' '], ?_, ?_⟩
    · have hstart : trimStart (writtenText (some type) ++ ' ' :: '=' :: ' ' :: w)
          = writtenText (some type) ++ ' ' :: '=' :: ' ' :: w :=
        trimStart_eq_self fun c hc => by
          obtain rfl := Option.some.inj hc
          decide
      rw [hstart]
      exact cutAssignment_sign hs.toBalanced hu
    · have htrim : Trimmed [':'] := Trimmed.of_forall (by decide)
      have ht : trim (writtenText (some type) ++ [' ']) = ':' :: SourceType.text type := by
        have h := trim_append_blank (l := []) (t := writtenText (some type)) blank_nil blank_blank
        rw [List.nil_append] at h
        rw [h]
        exact trim_eq_self (htrim.append hback.enclosed.trimmed)
      have ha : after? [':'] (':' :: SourceType.text type) = some (SourceType.text type) :=
        after?_eq_some_iff.2 rfl
      simp only [Form.writtenType, ht, ha, hback.reads]
      rfl

def declarationWord (constant : Bool) : Name := if constant then "const".toList else "var".toList

theorem declarationShape?_append (constant : Bool) (w : Text) :
    declarationShape? (declarationWord constant ++ ' ' :: w) = some (constant, trimStart w) := by
  cases constant with
  | false =>
    have h := afterKeyword?_append "var".toList w
    rw [declarationShape?, show declarationWord false = "var".toList from rfl, h]
  | true =>
    have h := afterKeyword?_append "const".toList w
    have hvar : afterKeyword? "var".toList ("const".toList ++ ' ' :: w) = none := rfl
    rw [declarationShape?, show declarationWord true = "const".toList from rfl, hvar, h]
    rfl

theorem returnShape?_declarationWord (constant : Bool) (w : Text) :
    returnShape? (declarationWord constant ++ ' ' :: w) = none := by
  cases constant <;> rfl

/-- A text that begins with the word of a declaration is one, unless it ends like a call or
    a member access. -/
theorem formShape?_declarationWord {constant : Bool} {w : Text}
    (hcall : callForm? (declarationWord constant ++ ' ' :: w) = none)
    (hmember : memberForm? (declarationWord constant ++ ' ' :: w) = none) :
    formShape? (declarationWord constant ++ ' ' :: w)
      = some (.declaration constant (trimStart w)) := by
  have hshape := declarationShape?_append constant w
  have hreturn := returnShape?_declarationWord constant w
  obtain ⟨c, u, hc, hhead⟩ : ∃ c u, declarationWord constant ++ ' ' :: w = c :: u
      ∧ (c = 'c' ∨ c = 'v') := by
    cases constant
    · exact ⟨'v', _, rfl, Or.inr rfl⟩
    · exact ⟨'c', _, rfl, Or.inl rfl⟩
  rw [hc] at hshape hreturn hcall hmember ⊢
  have hform : isNumeralChar c = false ∧ c ∉ ['"', '\x7b', '['] ∧ c ≠ '&'
      ∧ c ≠ '(' ∧ c ≠ '[' := by
    rcases hhead with rfl | rfl <;> decide
  rw [formShape?_of_head hform.1 hform.2.1 (referenceShape?_of_head hform.2.2.1) hcall
    (lambdaShape?_of_head hform.2.2.2.1 hform.2.2.2.2), hmember, hreturn, hshape]
  rfl

/-- A name before a written type ends where the type begins. -/
theorem takeWhile_writtenText {name : Name} (hid : isIdentifier name = true)
    (declared : Option SourceType) (w : Text) :
    (name ++ (writtenText declared ++ ' ' :: w)).takeWhile isNameChar = name
      ∧ (name ++ (writtenText declared ++ ' ' :: w)).dropWhile isNameChar
        = writtenText declared ++ ' ' :: w := by
  apply takeWhile_name hid
  intro c hc
  cases declared <;> obtain rfl := Option.some.inj hc <;> decide

theorem trimStart_isIdentifier_append {name : Name} (hid : isIdentifier name = true) (w : Text) :
    trimStart (name ++ w) = name ++ w := by
  obtain ⟨c, u, rfl, hc⟩ := exists_of_isIdentifier hid
  apply trimStart_eq_self
  intro d hd
  obtain rfl := Option.some.inj hd
  exact isBlank_of_isNameChar (isNameChar_of_isNameStart hc)

section

variable {env env₁ : TypeEnv} {n : Node}

theorem reads_declaration {constant : Bool} {name : Name} {declared : Option SourceType}
    {e : Text} {inferred : SourceType} (hn : isName name = true)
    (hd : ∀ type, declared = some type → SourceType.Canonical type)
    (hv : Reads e (declared.elim env fun type => env.insert name type) n env₁)
    (ht : (typeOf env₁ n).result = .ok inferred)
    (hs : ∀ type, declared = some type → (type == inferred) = true) :
    Reads (declarationWord constant
        ++ ' ' :: (name ++ (writtenText declared ++ ' ' :: '=' :: ' ' :: e)))
      env (.declaration constant name declared (declared.getD inferred) n)
      (env₁.insert name (declared.getD inferred)) := by
  have hword : declarationWord constant ∈ reservedWords := by cases constant <;> decide
  have hi := introduces_keyword hword
  have hid := isIdentifier_of_isName hn
  have hb := not_blank_of_reads hv
  -- the value stands behind everything else and a blank
  have hvalue (v : Text) : declarationWord constant
        ++ ' ' :: (name ++ (writtenText declared ++ ' ' :: '=' :: ' ' :: v))
      = (declarationWord constant ++ ((' ' :: (name ++ (writtenText declared ++ [' ']))) ++ ['=']))
        ++ ' ' :: v := by simp
  have htrimmed : Trimmed (declarationWord constant
      ++ ((' ' :: (name ++ (writtenText declared ++ [' ']))) ++ ['='])) :=
    hi.trimmed.around (Trimmed.of_forall (by decide)) hi.ne_nil (List.cons_ne_nil _ _)
  rw [hvalue, reads_statement htrimmed (by simp) hb]
  have htrim := trimmed_statement htrimmed (by simp) hb
  have hw := reads_blank_cons.2 (reads_trimEnd.2 hv)
  generalize trimEnd e = w at htrim hw
  rw [← hvalue] at htrim ⊢
  obtain ⟨before, hcut, hwritten⟩ := cutAssignment_writtenText (w := w) hd
  obtain ⟨htake, hdrop⟩ := takeWhile_writtenText hid declared ('=' :: ' ' :: w)
  have hstart := trimStart_isIdentifier_append hid (writtenText declared ++ ' ' :: '=' :: ' ' :: w)
  generalize hrest : name ++ (writtenText declared ++ ' ' :: '=' :: ' ' :: w) = rest at *
  refine reads_of_form (k := .declaration constant rest) htrim
    (unwrap?_append hi.toBalanced hi.ne_nil (List.cons_ne_nil _ _)) ?_ ?_
  · have hcall := hi.callForm?_eq_none (List.cons_ne_nil _ _) htrim head_isBlank
    have hmember := hi.memberForm?_eq_none (v := ' ' :: rest) head_isBlank
    rw [formShape?_declarationWord hcall hmember, hstart]
  · rw [← htake] at hn hw ⊢
    rw [← hdrop] at hcut
    exact .declaration hn hcut hwritten hw ht hs

end

/-! ### Assignments -/

/-- What can stand before the equals sign of an assignment: no earlier form takes
    it together with the sign. -/
structure Assignable (g : Text) : Prop extends Balanced g where
  trimmed : Trimmed g
  unassigned : Avoids (· == '=') g
  keyword : keywordHead g = false
  bare : unwrap? .round g = none
  begins : ∃ c u, g = c :: u ∧ isNumeralChar c = false ∧ c ∉ ['"', '\x7b', '[']
  noLambda : ∀ v, lambdaShape? (g ++ ' ' :: v) = none

section

variable {c g e u inner : Text} {d : Char} {name : Name}

theorem Assignable.ne_nil (hg : Assignable g) : g ≠ [] := by
  obtain ⟨c, u, rfl, _⟩ := hg.begins
  exact List.cons_ne_nil c u

theorem Assignable.stripParens_eq (hg : Assignable g) : stripParens (g ++ [' ']) = g := by
  have ht : trim (g ++ [' ']) = g := by
    have h := trim_append_blank (l := []) (t := g) blank_nil blank_blank
    rw [List.nil_append, trim_eq_self hg.trimmed] at h
    exact h
  rw [← stripParens_trim, ht, stripParens_eq_self hg.trimmed hg.bare]

theorem reads_assignment {env env₁ env₂ : TypeEnv} {target : Target} {n : Node}
    {type : SourceType} (hg : Assignable g) (ht : Targeted Reads g env target env₁)
    (hv : Reads e env₁ n env₂)
    (htype : (typeOf env₂ (.assignment target n)).result = .ok type) :
    Reads (g ++ ' ' :: '=' :: ' ' :: e) env (.assignment target n) env₂ := by
  have hi := introduces_sign hg.toBalanced hg.trimmed hg.ne_nil
  have hb := not_blank_of_reads hv
  have hvalue (v : Text) : g ++ ' ' :: '=' :: ' ' :: v = (g ++ [' ', '=']) ++ ' ' :: v := by simp
  rw [hvalue, reads_statement hi.trimmed hi.ne_nil hb]
  have htrim := trimmed_statement hi.trimmed hi.ne_nil hb
  have hw := reads_blank_cons.2 (reads_trimEnd.2 hv)
  generalize trimEnd e = w at htrim hw
  have hcall := hi.callForm?_eq_none (List.cons_ne_nil _ _) htrim head_isBlank
  have hmember := hi.memberForm?_eq_none (v := ' ' :: w) head_isBlank
  rw [← hvalue] at htrim hcall hmember ⊢
  have hkeyword : keywordHead (g ++ ' ' :: '=' :: ' ' :: w) = false := by
    apply keywordHead_append hg.keyword
    intro c hc
    obtain rfl := Option.some.inj hc
    decide
  have hreturn := returnShape?_of_keywordHead hkeyword
  have hdeclaration := declarationShape?_of_keywordHead hkeyword
  have hlambda := hg.noLambda ('=' :: ' ' :: w)
  have href : referenceShape? (g ++ ' ' :: '=' :: ' ' :: w) = none :=
    referenceShape?_append hg.ne_nil (d := ' ') (by simp) (by decide)
  have hcut := cutAssignment_sign (u := w) hg.toBalanced hg.unassigned.unassigned
  refine reads_of_form (k := .assignment (g ++ [' ']) (' ' :: w)) htrim
    (unwrap?_append hg.toBalanced hg.ne_nil (List.cons_ne_nil _ _)) ?_ (.assignment ?_ hw htype)
  · obtain ⟨c, u, hc, hnum, hnotin⟩ := hg.begins
    have hhead : g ++ ' ' :: '=' :: ' ' :: w = c :: (u ++ ' ' :: '=' :: ' ' :: w) := by rw [hc]; rfl
    rw [hhead] at hcall hmember hreturn hdeclaration hlambda href hcut ⊢
    rw [formShape?_of_head hnum hnotin href hcall hlambda, hmember, hreturn, hdeclaration, hcut]
    rfl
  · rwa [hg.stripParens_eq]

/-! ### Targets -/

theorem assignable_of_isName (h : isName name = true) : Assignable name := by
  have ho := operand_of_isName h
  obtain ⟨c, u, rfl, hc⟩ := exists_of_isIdentifier (isIdentifier_of_isName h)
  have hne : c ≠ '(' ∧ c ≠ '[' := by
    constructor <;> rintro rfl <;> exact absurd hc (by decide)
  obtain ⟨d, v, hd, hnum, hnotin⟩ := ho.exists_head
  exact {
    toBalanced := ho.toBalanced
    trimmed := ho.trimmed
    unassigned := ho.unassigned
    keyword := ho.keyword
    bare := unwrap?_cons hne.1
    begins := ⟨d, v, hd, hnum, hnotin⟩
    noLambda := fun _ => lambdaShape?_of_head hne.1 hne.2 }

theorem targeted_var {env : TypeEnv} (h : isName name = true) :
    Targeted Reads name env (.var name) env := by
  refine .var ?_ h
  obtain ⟨c, u, rfl, hc⟩ := exists_of_isIdentifier (isIdentifier_of_isName h)
  have hne : '*' ≠ c := by
    rintro rfl
    exact absurd hc (by decide)
  simp [dereferenceShape?, after?, hne]

theorem assignable_dereference (h : isName name = true) : Assignable ('*' :: name) := by
  have ho := operand_of_isName h
  have hstar : Sealed ['*'] := sealed_of_plain (by decide)
  have hs : Sealed ('*' :: name) := hstar.append ho.toSealed
  have htrim : Trimmed ['*'] := Trimmed.of_forall (by decide)
  have hsign : Avoids (· == '=') ['*'] := avoids_of_forall (by decide)
  exact {
    toBalanced := hs.toBalanced
    trimmed := htrim.append ho.trimmed
    unassigned := Avoids.append hstar.toBalanced hsign ho.unassigned (ho.toSealed.fits _)
    keyword := keywordHead_of_head fun c hc => by
      obtain rfl := Option.some.inj hc
      decide
    bare := unwrap?_cons (by decide)
    begins := ⟨'*', name, rfl, by decide⟩
    noLambda := fun _ => lambdaShape?_of_head (by decide) (by decide) }

theorem targeted_dereference {env : TypeEnv} (h : isName name = true) :
    Targeted Reads ('*' :: name) env (.dereference name) env := by
  apply Targeted.dereference
  simp [dereferenceShape?, after?, trim_of_isIdentifier (isIdentifier_of_isName h), h]

/-- The signature of a lambda does not go on like an operand. -/
theorem lambdaShape?_group (hi : Balanced inner) (hd : d ∈ ['(', '.', '<']) :
    lambdaShape? ('(' :: (inner ++ ')' :: d :: u)) = none := by
  have hbrackets : isBlank d = false ∧ d ≠ ':' ∧ d ≠ '=' ∧ d ≠ '~' ∧ d ≠ '\x7b' := by
    have hall : ∀ d ∈ ['(', '.', '<'],
        isBlank d = false ∧ d ≠ ':' ∧ d ≠ '=' ∧ d ≠ '~' ∧ d ≠ '\x7b' := by decide
    exact hall d hd
  obtain ⟨hblank, hcolon, hown, hshared, hcurly⟩ := hbrackets
  have hs : splitGenerics? ('(' :: (inner ++ ')' :: d :: u))
      = some (none, '(' :: (inner ++ ')' :: d :: u)) := by simp [splitGenerics?]
  have hg : group? .round ('(' :: (inner ++ ')' :: d :: u)) = some (inner, d :: u) :=
    group?_append (b := .round) hi (closesAfter_of_ne (by decide))
  have htrim : Trimmed [d] := Trimmed.of_forall (by simpa using hblank)
  cases hl : lambdaShape? ('(' :: (inner ++ ')' :: d :: u)) with
  | none => rfl
  | some shape =>
    exfalso
    simp only [lambdaShape?, hs, hg, Option.bind_eq_bind, Option.bind_some,
      Option.bind_eq_some_iff, Prod.exists] at hl
    obtain ⟨head, body, hlast, signature, own, hstem, result, hresult, _⟩ := hl
    have htail : trim (d :: u) = d :: trimEnd u := trim_append (t := [d]) htrim (by simp)
    rw [htail] at hlast
    obtain ⟨hhead, _⟩ := eq_of_lastGroup? hlast
    -- the signature begins with `d`
    cases head with
    | nil =>
      exact hcurly (List.cons.inj hhead).1
    | cons a head =>
      obtain ⟨rfl, _⟩ := List.cons.inj hhead
      have hend : trimEnd (d :: head) = d :: trimEnd head := by
        apply trimEnd_append (t := [d])
        exact htrim.2
      rw [hend] at hstem
      have hsign := eq_of_stem? hstem
      cases signature with
      | nil =>
        cases own
        · exact hshared (List.cons.inj hsign).1
        · exact hown (List.cons.inj hsign).1
      | cons a signature =>
        obtain ⟨rfl, _⟩ := List.cons.inj hsign
        have hbegin : trim (d :: signature) = d :: trimEnd signature :=
          trim_append (t := [d]) htrim (by simp)
        rcases eq_of_resultPart? hresult with ⟨he, _⟩ | ⟨v, he, _⟩
        · rw [hbegin] at he
          cases he
        · rw [hbegin] at he
          exact hcolon (List.cons.inj he).1

theorem assignable_member (hc : Operand c) (hn : isIdentifier name = true) :
    Assignable (c ++ '.' :: name) := by
  have ho := hc.member hn
  exact {
    toBalanced := ho.toBalanced
    trimmed := ho.trimmed
    unassigned := ho.unassigned
    keyword := ho.keyword
    bare := unwrap?_append hc.toBalanced hc.ne_nil (List.cons_ne_nil _ _)
    begins := ho.exists_head
    noLambda := by
      intro v
      rcases hc.begins with ⟨d, u, rfl, hd⟩ | ⟨inner, u, rfl, hi, hu⟩
      · have hne : d ≠ '(' ∧ d ≠ '[' := by
          rcases hd with hd | rfl
          · constructor <;> rintro rfl <;> exact absurd hd (by decide)
          · decide
        exact lambdaShape?_of_head hne.1 hne.2
      · cases u with
        | nil =>
          have h := lambdaShape?_group (u := name ++ ' ' :: v) hi (d := '.') (by decide)
          rw [← h]
          simp
        | cons d u =>
          have h := lambdaShape?_group (u := u ++ '.' :: (name ++ ' ' :: v)) hi (hu d rfl)
          rw [← h]
          simp }

theorem targeted_member {env env₁ : TypeEnv} {p : Node} (hc : Operand c)
    (hp : Reads c env p env₁) (hn : isIdentifier name = true) :
    Targeted Reads (c ++ '.' :: name) env (.member p name) env₁ := by
  refine .member ?_ ?_ (memberForm?_member hc hn) hp
  · have hstar : c.head? ≠ some '*' := by
      rcases hc.begins with ⟨d, u, rfl, hd⟩ | ⟨inner, u, rfl, _⟩
      · intro h
        obtain rfl := Option.some.inj h
        rcases hd with hd | hd
        · exact absurd hd (by decide)
        · exact absurd hd (by decide)
      · intro h
        cases Option.some.inj h
    obtain ⟨d, u, rfl⟩ := List.exists_cons_of_ne_nil hc.ne_nil
    have hne : '*' ≠ d := by
      rintro rfl
      exact hstar rfl
    simp [dereferenceShape?, after?, hne]
  · cases hname : isName (c ++ '.' :: name) with
    | false => rfl
    | true =>
      have h := isNameChar_of_mem_identifier (isIdentifier_of_isName hname) '.' (by simp)
      exact absurd h (by decide)

end

end UnionTyping
