/-
  UnionTyping/Grammar/Equations.lean
  ==================================
  **The readers call themselves on shorter texts only.**  `parseType` and
  `expression` tie a knot through a test of lengths; here the test is removed.
  Each form gives the same answer with two parsers that agree on the texts
  shorter than its own (`..._congr`), because every piece that it hands on is
  shorter.  Hence the two equations that everything else is proved from:

  * `parseType_eq`: `parseType` is `typeWith parseType`;
  * `expression_eq`: `expression` is `expressionWith expression`.
-/
import UnionTyping.Grammar.Forms

namespace UnionTyping

open Text ParseM

/-! ### Pieces -/

theorem mapM_congr {m : Type → Type} [Monad m] [LawfulMonad m] {α β : Type} {f g : α → m β}
    {l : List α} (h : ∀ a ∈ l, f a = g a) : l.mapM f = l.mapM g := by
  induction l with
  | nil => rfl
  | cons a l ih =>
    rw [List.mapM_cons, List.mapM_cons, h a (by simp), ih fun b hb => h b (by simp [hb])]

theorem length_of_mem_commaItems {t u : Text} (h : u ∈ commaItems t) : u.length ≤ t.length := by
  unfold commaItems at h
  split at h
  · simp at h
  · exact length_of_mem_splitTop h

theorem length_of_splitPure (t : Text) : (splitPure t).2.length ≤ t.length := by
  unfold splitPure
  split
  · exact Nat.le_refl _
  · next rest h =>
    have h₁ := length_of_after? h
    have h₂ := length_trimStart_le rest
    simp only
    split
    · exact Nat.le_trans h₂ h₁
    · exact Nat.le_refl _

theorem length_of_arrow? {t rest : Text} {mode : ScopeMode} (h : arrow? t = some (mode, rest)) :
    rest.length ≤ t.length := by
  obtain ⟨⟨arrow, m⟩, _, h⟩ := List.exists_of_findSome?_eq_some h
  obtain ⟨r, ha, he⟩ := Option.map_eq_some_iff.1 h
  obtain ⟨_, rfl⟩ := Prod.mk.inj he
  exact length_of_after? ha

theorem length_of_functionShape? {t : Text} {shape : FunctionShape}
    (h : functionShape? t = some shape) :
    shape.params.length < t.length ∧ shape.result.length < t.length := by
  simp only [functionShape?, Option.bind_eq_bind, Option.bind_eq_some_iff, Prod.exists] at h
  obtain ⟨generics, rest, hs, params, tail, hp, mode, result, ha, h⟩ := h
  obtain rfl := Option.some.inj h
  have h₁ := length_of_splitPure t
  have h₂ := length_of_splitGenerics? hs
  have h₃ := length_of_group? hp
  have h₄ := length_trimStart_le tail
  have h₅ := length_of_arrow? ha
  simp only
  omega

theorem length_of_splitVariadic (t : Text) : (splitVariadic t).1.length ≤ t.length := by
  unfold splitVariadic
  split
  · next h => exact length_of_before? h
  · exact Nat.le_refl _

/-! ### Types -/

section

variable {sub sub' : Reader SourceType}

theorem typesWith_congr {t : Text} (h : ∀ u, u.length ≤ t.length → sub u = sub' u) :
    typesWith sub t = typesWith sub' t :=
  mapM_congr fun u hu => h u (length_of_mem_commaItems hu)

theorem functionWith_congr {t : Text} {shape : FunctionShape}
    (hp : ∀ u, u.length ≤ shape.params.length → sub u = sub' u)
    (hr : sub shape.result = sub' shape.result) :
    functionWith sub t shape = functionWith sub' t shape := by
  have h₁ := length_of_splitVariadic (trim shape.params)
  have h₂ := length_trim_le shape.params
  have h : typesWith sub (splitVariadic (trim shape.params)).1
      = typesWith sub' (splitVariadic (trim shape.params)).1 :=
    typesWith_congr fun u hu => hp u (by omega)
  simp only [functionWith, h, hr]

theorem namedWith_congr {t : Text} (h : ∀ u, u.length < t.length → sub u = sub' u) :
    namedWith sub t = namedWith sub' t := by
  simp only [namedWith]
  split
  · rfl
  · split
    · rfl
    · split
      · rfl
      · next inner hi =>
        have h₁ := length_of_unwrap? hi
        have h₂ := length_trimStart_le (t.dropWhile isNameChar)
        have h₃ : (t.dropWhile isNameChar).length ≤ t.length :=
          (List.dropWhile_suffix _).length_le
        rw [typesWith_congr fun u hu => h u (by omega)]

theorem typeWith_congr {t : Text} (h : ∀ u, u.length < t.length → sub u = sub' u) :
    typeWith sub t = typeWith sub' t := by
  have ht := length_trim_le t
  simp only [typeWith]
  split
  · rfl
  · split
    · next h₂ =>
      rw [mapM_congr fun u hu => h u (Nat.lt_of_lt_of_le (length_of_mem_splitTop_of_two hu h₂) ht)]
    · split
      · next inner hi =>
        have h₁ := length_of_unwrap? hi
        exact h _ (by omega)
      · split
        · next shape hs =>
          have h₁ := length_of_functionShape? hs
          exact functionWith_congr (fun u hu => h u (by omega)) (h _ (by omega))
        · exact namedWith_congr fun u hu => h u (by omega)

end

/-- A type is read with the same reader at every depth. -/
theorem parseType_eq (t : Text) : parseType t = typeWith parseType t := by
  rw [parseType]
  exact typeWith_congr fun u hu => if_pos hu

/-! ### Expressions -/

section

variable {sub sub' : Parser Node}

theorem expressions_congr {t : Text} (h : ∀ u, u.length ≤ t.length → sub u = sub' u) :
    Form.expressions sub t = Form.expressions sub' t :=
  mapM_congr fun u hu => h u (length_of_mem_commaItems hu)

theorem statements_congr {t : Text} (h : ∀ u, u.length ≤ t.length → sub u = sub' u) :
    Form.statements sub t = Form.statements sub' t := by
  have ht := length_trim_le t
  have hs : ∀ u ∈ splitTop ';' (trim t), sub u = sub' u := fun u hu =>
    h u (Nat.le_trans (length_of_mem_splitTop hu) ht)
  simp only [Form.statements]
  split
  · rfl
  · have hlast : sub ((splitTop ';' (trim t)).getLast?.getD [])
        = sub' ((splitTop ';' (trim t)).getLast?.getD []) := by
      cases hl : (splitTop ';' (trim t)).getLast? with
      | none => exact h [] (by simp)
      | some u => exact hs u (List.mem_of_getLast? hl)
    rw [hlast, mapM_congr fun u hu => hs u (List.dropLast_subset _ hu)]

theorem call_congr {t : Text} (h : ∀ u, u.length < t.length → sub u = sub' u) :
    Form.call sub t = Form.call sub' t := by
  simp only [Form.call]
  split
  · rfl
  · next shape hs =>
    have h₁ := length_of_callShape? hs
    rw [h _ h₁.1, expressions_congr fun u hu => h u (by omega)]

theorem memberParts_congr {t : Text} (h : ∀ u, u.length < t.length → sub u = sub' u) :
    Form.memberParts sub t = Form.memberParts sub' t := by
  simp only [Form.memberParts]
  split
  · rfl
  · next parent name hs => rw [h _ (length_of_memberShape? hs)]

theorem member_congr {t : Text} (h : ∀ u, u.length < t.length → sub u = sub' u) :
    Form.member sub t = Form.member sub' t := by
  simp only [Form.member, memberParts_congr h]

theorem list_congr {t : Text} (h : ∀ u, u.length < t.length → sub u = sub' u) :
    Form.list sub t = Form.list sub' t := by
  simp only [Form.list]
  split
  · rfl
  · next inner hi =>
    have h₁ := length_of_unwrap? hi
    rw [expressions_congr fun u hu => h u (by omega)]

theorem scopedBody_congr {ownScope : Bool} {params : List Parameter} {body : Text}
    (h : ∀ u, u.length ≤ body.length → sub u = sub' u) :
    Form.scopedBody sub ownScope params body = Form.scopedBody sub' ownScope params body := by
  simp only [Form.scopedBody, Form.lambdaBody, statements_congr h]

theorem lambda_congr {t : Text} (h : ∀ u, u.length < t.length → sub u = sub' u) :
    Form.lambda sub t = Form.lambda sub' t := by
  simp only [Form.lambda]
  split
  · rfl
  · next shape hs =>
    have h₁ := length_of_lambdaShape? hs
    have hb (params : List Parameter) :
        Form.scopedBody sub shape.ownScope params shape.body
          = Form.scopedBody sub' shape.ownScope params shape.body :=
      scopedBody_congr fun u hu => h u (by omega)
    simp only [hb]

theorem short_congr {t : Text} (h : ∀ u, u.length < t.length → sub u = sub' u) :
    Form.short sub t = Form.short sub' t := by
  simp only [Form.short]
  split
  · rfl
  · next inner hi =>
    have h₁ := length_of_unwrap? hi
    rw [h _ (by omega)]

theorem giveBack_congr {t : Text} (h : ∀ u, u.length < t.length → sub u = sub' u) :
    Form.giveBack sub t = Form.giveBack sub' t := by
  simp only [Form.giveBack]
  split
  · rfl
  · rfl
  · next value hs => rw [h _ (length_of_returnShape? hs)]

theorem declaration_congr {t : Text} (h : ∀ u, u.length < t.length → sub u = sub' u) :
    Form.declaration sub t = Form.declaration sub' t := by
  simp only [Form.declaration]
  split
  · rfl
  · next constant rest hs =>
    split
    · rfl
    · split
      · rfl
      · next before value hc =>
        have h₁ := length_of_declarationShape? hs
        have h₂ := length_of_cutFirst hc
        have h₃ := length_trimStart_le (rest.dropWhile isNameChar)
        have h₄ : (rest.dropWhile isNameChar).length ≤ rest.length :=
          (List.dropWhile_suffix _).length_le
        simp only [Form.declare, h value (by omega)]

theorem target_congr {t : Text} (h : ∀ u, u.length < t.length → sub u = sub' u) :
    Form.target sub t = Form.target sub' t := by
  have ht := length_stripParens_le t
  simp only [Form.target, memberParts_congr fun u hu => h u (Nat.lt_of_lt_of_le hu ht)]

theorem assignment_congr {t : Text} (h : ∀ u, u.length < t.length → sub u = sub' u) :
    Form.assignment sub t = Form.assignment sub' t := by
  simp only [Form.assignment]
  split
  · rfl
  · next before after hc =>
    have h₁ := length_of_cutFirst hc
    rw [target_congr fun u hu => h u (by omega), h after h₁.2]

theorem choice_congr {ps qs : List (Parser Node)} {t : Text}
    (h : ps.map (· t) = qs.map (· t)) : Parser.choice ps t = Parser.choice qs t := by
  induction ps generalizing qs with
  | nil => cases qs <;> simp_all
  | cons p ps ih =>
    cases qs with
    | nil => simp at h
    | cons q qs =>
      simp only [List.map_cons, List.cons.injEq] at h
      funext s
      simp only [Parser.choice, Parser.or, h.1, ih h.2]

theorem forms_congr {t : Text} (h : ∀ u, u.length < t.length → sub u = sub' u) :
    Parser.choice (forms sub) t = Parser.choice (forms sub') t := by
  apply choice_congr
  simp only [forms, List.map_cons, List.map_nil, Parser.label, call_congr h, list_congr h,
    lambda_congr h, short_congr h, member_congr h, giveBack_congr h, declaration_congr h,
    assignment_congr h]

theorem expressionWith_congr {t : Text} (h : ∀ u, u.length < t.length → sub u = sub' u) :
    expressionWith sub t = expressionWith sub' t := by
  have ht := length_stripParens_le t
  simp only [expressionWith, forms_congr fun u hu => h u (Nat.lt_of_lt_of_le hu ht)]

end

/-- An expression is read with the same parser at every depth. -/
theorem expression_eq (t : Text) : expression t = expressionWith expression t := by
  rw [expression]
  exact expressionWith_congr fun u hu => if_pos hu

end UnionTyping
