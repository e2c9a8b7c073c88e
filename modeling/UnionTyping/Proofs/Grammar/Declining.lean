/-
  UnionTyping/Proofs/Grammar/Declining.lean
  =========================================
  **Declining costs nothing** — the choice between the forms does not restore the
  state between two attempts.  It does not have to: a form declines a text by its
  shape, in every state or in none, and where it declines it has neither touched
  the state nor reported anything.  What a form does not decline it decides; an
  inner expression that no form takes is rejected, so that its refusal never
  passes for one of the outer form.

  An expression therefore never declines, and leaves the nesting depth as it was
  whatever comes of it.
-/
import UnionTyping.Proofs.Grammar.Dispatch

namespace UnionTyping

open Text ParseM

/-! ### All or nothing -/

/-- The computation is a refusal, or never ends in one. -/
def ParseM.Firm {α : Type} (x : ParseM α) : Prop := x = fail .noMatch ∨ Decides x

section

variable {sub : Parser Node} {t : Text}

/-- A form with a shape refuses the texts without the shape and decides the others. -/
theorem firm_label {σ : Type} (shape? : Option σ) {p : Parser Node} {name : Text}
    (hnone : shape? = none → p t = fail .noMatch)
    (hsome : ∀ shape, shape? = some shape → Decides (p t)) : Firm (p.label name t) := by
  cases hs : shape? with
  | none =>
    left
    rw [Parser.label, hnone hs]
    rfl
  | some shape => exact Or.inr (decides_inForm (hsome shape hs))

theorem firm_literal : Firm (Form.literal t) := by
  cases hnumber : isNumeral t with
  | true => exact Or.inr (decides_or_left (decides_or_left (decides_number hnumber)))
  | false =>
  cases hstring : quoted? t with
  | some raw => exact Or.inr (decides_or_left (decides_or_right (decides_string hstring)))
  | none =>
  rw [literal_of_not_constant hnumber hstring]
  cases hreference : referenceShape? t with
  | some name => exact Or.inr (decides_reference hreference)
  | none => exact Or.inl (reference_of_none hreference)

theorem firm_var : Firm (Form.var t) := by
  cases hname : isName t with
  | true => exact Or.inr (decides_var hname)
  | false => exact Or.inl (var_of_not_isName hname)

/-- Each of the forms is a refusal of the text, or decides it in every state. -/
theorem firm_of_mem_forms (hsub : ∀ u, Decides (sub u)) {form : Parser Node}
    (h : form ∈ forms sub) : Firm (form t) := by
  simp only [forms, List.mem_cons, List.not_mem_nil, or_false] at h
  rcases h with rfl | rfl | rfl | rfl | rfl | rfl | rfl | rfl | rfl | rfl
  · exact firm_label (callForm? t) call_of_none fun _ => decides_call hsub
  · exact firm_literal
  · exact firm_label (unwrap? .curly t) (fun hn => by simp [Form.list, hn])
      fun _ => decides_list hsub
  · exact firm_label (lambdaShape? t) (fun hn => by simp [Form.lambda, hn])
      fun _ => decides_lambda hsub
  · exact firm_label (unwrap? .square t) (fun hn => by simp [Form.short, hn])
      fun _ => decides_short hsub
  · refine firm_label (memberForm? t) member_of_none ?_
    rintro ⟨parent, name⟩ hm
    exact decides_member hsub hm
  · exact firm_label (returnShape? t) (fun hn => by simp [Form.giveBack, hn])
      fun _ => decides_giveBack hsub
  · refine firm_label (declarationShape? t) (fun hn => by simp [Form.declaration, hn]) ?_
    rintro ⟨constant, rest⟩ hd
    exact decides_declaration hsub hd
  · refine firm_label (cutAssignment t) (fun hn => by simp [Form.assignment, hn]) ?_
    rintro ⟨before, after⟩ hc
    exact decides_assignment hsub hc
  · exact firm_var

end

/-- A form that declines in one state is a refusal in all of them. -/
theorem ParseM.Firm.eq_fail {α : Type} {x : ParseM α} (h : Firm x) {s : ParseState}
    (hs : (x s).result = .error .noMatch) : x = fail .noMatch :=
  h.resolve_right fun hd => hd s hs

/-- Forms that decline can be left out at the beginning of a choice. -/
theorem choice_append_of_declined {tried rest : List (Parser Node)} {t : Text} {s : ParseState}
    (hfirm : ∀ form ∈ tried, Firm (form t))
    (hdeclined : ∀ form ∈ tried, (form t s).result = .error .noMatch) :
    Parser.choice (tried ++ rest) t = Parser.choice rest t := by
  induction tried with
  | nil => rfl
  | cons form tried ih =>
    rw [List.forall_mem_cons] at hfirm hdeclined
    have hfail : form t = fail .noMatch := hfirm.1.eq_fail hdeclined.1
    rw [List.cons_append, Parser.choice, or_of_fail hfail, ih hfirm.2 hdeclined.2]

/-! ### Expressions -/

theorem depth_expression (t : Text) (s : ParseState) : (expression t s).state.depth = s.depth := by
  have h : (expression t s).state = _ := (steady_expression t).state s.env s.depth
  rw [h]

/-- **Declining is free.**  An expression does not decline and leaves the depth as it
    was.  A form that declines leaves the whole state as it was and reports nothing,
    so that the choice goes on as if the forms before had not been tried. -/
theorem expression_decides_at_its_depth (t : Text) (s : ParseState) :
    (expression t s).result ≠ .error .noMatch
      ∧ (expression t s).state.depth = s.depth
      ∧ (∀ form ∈ forms expression, (form t s).result = .error .noMatch →
        (form t s).state = s ∧ (form t s).events = [])
      ∧ ∀ tried rest, forms expression = tried ++ rest →
        (∀ form ∈ tried, (form t s).result = .error .noMatch) →
        Parser.choice (forms expression) t s = Parser.choice rest t s := by
  have hfirm : ∀ form ∈ forms expression, Firm (form t) :=
    fun form hform => firm_of_mem_forms decides_expression hform
  refine ⟨decides_expression t s, depth_expression t s, ?_, ?_⟩
  · intro form hform hdeclined
    rw [(hfirm form hform).eq_fail hdeclined]
    exact ⟨rfl, rfl⟩
  · intro tried rest hforms hdeclined
    rw [hforms] at hfirm ⊢
    have htried : ∀ form ∈ tried, Firm (form t) :=
      fun form hform => hfirm form (List.mem_append_left rest hform)
    rw [choice_append_of_declined htried hdeclined]

/-- Seven forms decline a declaration whose value ends like a call, three levels
    deep and with a name of the declaration bound. -/
theorem expression_decides_at_its_depth_declaration :
    let s : ParseState := ⟨TypeEnv.initial.insert "x".toList .string, 3⟩
    (∀ form ∈ (forms expression).take 7,
        (form "var x = f(1)".toList s).result = .error .noMatch)
      ∧ (expression "var x = f(1)".toList s).result ≠ .error .noMatch
      ∧ (expression "var x = f(1)".toList s).state.depth = 3
      ∧ Parser.choice (forms expression) "var x = f(1)".toList s
        = Parser.choice ((forms expression).drop 7) "var x = f(1)".toList s := by
  intro s
  have hdeclined : ∀ form ∈ (forms expression).take 7,
      (form "var x = f(1)".toList s).result = .error .noMatch := by
    simp only [forms, List.take_succ_cons, List.take_zero, List.forall_mem_cons]
    exact ⟨rfl, rfl, rfl, rfl, rfl, rfl, rfl, fun form hform => by cases hform⟩
  obtain ⟨hdecides, hdepth, _, hchoice⟩ :=
    expression_decides_at_its_depth "var x = f(1)".toList s
  exact ⟨hdeclined, hdecides, hdepth, hchoice _ _ (List.take_append_drop 7 _).symm hdeclined⟩

end UnionTyping
