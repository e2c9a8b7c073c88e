/-
  UnionTyping/Proofs/Grammar/Reads.lean
  =====================================
  **Successful readings** — `Reads t env n env'` says that `t`, read in `env`,
  gives the node `n` and leaves `env'`.  A reading is one step, which depends on
  the form of the text, and the readings of the texts inside it (`reads_iff`);
  those are shorter, hence the induction over readings (`reads_induction`) that
  every property of readable texts is proved by.
-/
import UnionTyping.Proofs.Grammar.Dispatch
import UnionTyping.Proofs.Number.ReadBack
import UnionTyping.Reading

namespace UnionTyping

open Text ParseM

/-- A relation between texts, environments, nodes and environments. -/
abbrev Reading.Relation : Type := Text → TypeEnv → Node → TypeEnv → Prop

/-! ### One step -/

/-- Texts that are read one after the other. -/
inductive Chain (R : Reading.Relation) : List Text → TypeEnv → List Node → TypeEnv → Prop
  | nil {env : TypeEnv} : Chain R [] env [] env
  | cons {t : Text} {ts : List Text} {n : Node} {ns : List Node} {env env₁ env₂ : TypeEnv} :
      R t env n env₁ → Chain R ts env₁ ns env₂ → Chain R (t :: ts) env (n :: ns) env₂

/-- What stands before the equals sign of an assignment, without parentheses. -/
inductive Targeted (R : Reading.Relation) (t : Text) (env : TypeEnv) : Target → TypeEnv → Prop
  | dereference {name : Name} :
      dereferenceShape? t = some name → Targeted R t env (.dereference name) env
  | var : dereferenceShape? t = none → isName t = true → Targeted R t env (.var t) env
  | member {parent : Text} {name : Name} {p : Node} {env₁ : TypeEnv} :
      dereferenceShape? t = none → isName t = false → memberForm? t = some (parent, name) →
      R parent env p env₁ → Targeted R t env (.member p name) env₁

/-- How the node and the environment come from the pieces of a text, form by
    form; `R` reads the texts inside. -/
inductive Formed (R : Reading.Relation) (t : Text) (env : TypeEnv) :
    FormShape → Node → TypeEnv → Prop
  | call {shape : CallShape} {f : Node} {gs : List SourceType} {as : List Node}
      {env₁ env₂ : TypeEnv} :
      R shape.caller env f env₁ → (commaItems shape.generics).mapM parseType = .ok gs →
      Chain R (commaItems shape.arguments) env₁ as env₂ →
      Formed R t env (.call shape) (.call f as gs) env₂
  | number {x : Double} : Double.ofPositional? t = some x → Formed R t env .number (.number x) env
  | string {raw : Text} : Formed R t env (.string raw) (.string (unescape raw)) env
  | reference {name : Name} :
      isName name = true → Formed R t env (.reference name) (.reference name) env
  | list {inner : Text} {es : List Node} {env₁ : TypeEnv} :
      Chain R (commaItems inner) env es env₁ → Formed R t env (.list inner) (.list es) env₁
  | lambda {shape : LambdaShape} {generics : List Name} {params : List Parameter}
      {variadic : Bool} {declared : Option SourceType} {items : List Text} {body : List Node}
      {inferred : SourceType} {env₁ : TypeEnv} :
      genericNames shape.generics = .ok generics →
      parseParameters shape.params = .ok (params, variadic) →
      shape.result.mapM parseType = .ok declared →
      bodyItems? shape.body = some items →
      Chain R items (env.bindParameters params) body env₁ →
      (typeOfBody env₁ body).result = .ok inferred →
      (∀ type, declared = some type → (type == inferred) = true) →
      Formed R t env (.lambda shape)
        (.lambda ⟨generics, params, declared.getD inferred, declared.isSome, shape.ownScope, false,
          variadic⟩ body)
        (if shape.ownScope then env else env₁)
  | short {inner : Text} {n : Node} {type : SourceType} {env₁ : TypeEnv} :
      R inner env n env₁ → (typeOf env₁ n).result = .ok type →
      Formed R t env (.short inner)
        (.lambda ⟨[], [], type, false, false, false, false⟩ [n]) env₁
  | member {parent : Text} {name : Name} {p : Node} {env₁ : TypeEnv} :
      R parent env p env₁ → Formed R t env (.member parent name) (.member p name) env₁
  | giveBack : Formed R t env (.giveBack none) (.ret none) env
  | giveValue {value : Text} {n : Node} {env₁ : TypeEnv} :
      R value env n env₁ → Formed R t env (.giveBack (some value)) (.ret (some n)) env₁
  | declaration {constant : Bool} {rest before value : Text} {declared : Option SourceType}
      {n : Node} {inferred : SourceType} {env₁ : TypeEnv} :
      isName (rest.takeWhile isNameChar) = true →
      cutAssignment (trimStart (rest.dropWhile isNameChar)) = some (before, value) →
      Form.writtenType before = .ok declared →
      R value (declared.elim env fun type => env.insert (rest.takeWhile isNameChar) type) n env₁ →
      (typeOf env₁ n).result = .ok inferred →
      (∀ type, declared = some type → (type == inferred) = true) →
      Formed R t env (.declaration constant rest)
        (.declaration constant (rest.takeWhile isNameChar) declared (declared.getD inferred) n)
        (env₁.insert (rest.takeWhile isNameChar) (declared.getD inferred))
  | assignment {before after : Text} {target : Target} {value : Node} {type : SourceType}
      {env₁ env₂ : TypeEnv} :
      Targeted R (stripParens before) env target env₁ → R after env₁ value env₂ →
      (typeOf env₂ (.assignment target value)).result = .ok type →
      Formed R t env (.assignment before after) (.assignment target value) env₂
  | var : Formed R t env .var (.var t) env

/-! ### Targets by their shape -/

section

variable {R : Reading.Relation} {t : Text} {env env' : TypeEnv} {target : Target}

theorem targeted_iff_of_dereferenceShape? {name : Name} (h : dereferenceShape? t = some name) :
    Targeted R t env target env' ↔ .dereference name = target ∧ env = env' := by
  constructor
  · intro ht
    cases ht with
    | dereference h' =>
      rw [h] at h'
      exact ⟨congrArg Target.dereference (Option.some.inj h'), rfl⟩
    | var h' | member h' =>
      rw [h] at h'
      cases h'
  · rintro ⟨rfl, rfl⟩
    exact .dereference h

theorem targeted_iff_of_isName (hd : dereferenceShape? t = none) (hn : isName t = true) :
    Targeted R t env target env' ↔ .var t = target ∧ env = env' := by
  constructor
  · intro ht
    cases ht with
    | dereference hd' =>
      rw [hd] at hd'
      cases hd'
    | var => exact ⟨rfl, rfl⟩
    | member _ hn' =>
      rw [hn] at hn'
      cases hn'
  · rintro ⟨rfl, rfl⟩
    exact .var hd hn

theorem targeted_iff_of_not_isName (hd : dereferenceShape? t = none) (hn : isName t = false) :
    Targeted R t env target env' ↔ ∃ parent name p, memberForm? t = some (parent, name)
      ∧ R parent env p env' ∧ .member p name = target := by
  constructor
  · intro ht
    cases ht with
    | dereference hd' =>
      rw [hd] at hd'
      cases hd'
    | var _ hn' =>
      rw [hn] at hn'
      cases hn'
    | member _ _ hm hp => exact ⟨_, _, _, hm, hp, rfl⟩
  · rintro ⟨parent, name, p, hm, hp, rfl⟩
    exact .member hd hn hm hp

end

/-! ### Literals by their first characters -/

theorem isNumeral_of_head {t u : Text} {c : Char} (ht : t = c :: u)
    (hc : isNumeralChar c = false) : isNumeral t = false := by
  cases hn : isNumeral t with
  | false => rfl
  | true =>
    have h := isNumeralChar_of_isNumeral hn c (by rw [ht]; exact List.mem_cons_self ..)
    rw [hc] at h
    cases h

theorem eq_of_referenceShape? {t : Text} {name : Name} (h : referenceShape? t = some name) :
    t = '&' :: name := by
  simp only [referenceShape?, Option.bind_eq_bind, Option.bind_eq_some_iff] at h
  obtain ⟨n, ha, h⟩ := h
  split at h
  · obtain rfl := Option.some.inj h
    exact after?_eq_some_iff.1 ha
  · cases h

theorem literal_of_isNumeral {t : Text} (h : isNumeral t = true) :
    Form.literal t = Form.number t := by
  have hd := decides_number h
  rw [Form.literal, or_of_decides (decides_or_left hd), or_of_decides hd]

theorem literal_of_quoted? {t raw : Text} (h : quoted? t = some raw) :
    Form.literal t = pure (.string (unescape raw)) := by
  have hnum : isNumeral t = false := isNumeral_of_head (quoted?_eq_some_iff.1 h).1 (by decide)
  rw [Form.literal, or_of_decides (decides_or_right (decides_string h)),
    or_of_fail (number_of_not_isNumeral hnum), string_of_some h]

theorem literal_of_referenceShape? {t : Text} {name : Name} (h : referenceShape? t = some name) :
    Form.literal t = Form.reference t := by
  have ht := eq_of_referenceShape? h
  refine literal_of_not_constant (isNumeral_of_head ht (by decide)) ?_
  rw [ht]
  rfl

/-! ### Steps of parsers -/

/-- What a parser of expressions reads. -/
def Parser.Reads (sub : Parser Node) : Reading.Relation :=
  fun t env n env' => (sub t).on env = (.ok n, env')

section

variable {sub : Parser Node} (hsub : ∀ u, Steady (sub u)) {t : Text} {env env' : TypeEnv}
include hsub

theorem on_mapM_eq_ok_iff {ts : List Text} {ns : List Node} :
    (ts.mapM sub).on env = (.ok ns, env') ↔ Chain sub.Reads ts env ns env' := by
  induction ts generalizing env ns with
  | nil =>
    rw [List.mapM_nil, on_pure]
    constructor
    · intro h
      obtain ⟨hn, rfl⟩ := Prod.mk.inj h
      obtain rfl := Except.ok.inj hn
      exact .nil
    · intro h
      cases h
      rfl
  | cons t ts ih =>
    rw [List.mapM_cons, on_bind_eq_ok_iff (hsub t)]
    constructor
    · rintro ⟨n, env₁, hn, h⟩
      obtain ⟨ns', env₂, hns, h⟩ := (on_bind_eq_ok_iff (steady_mapM hsub)).1 h
      obtain ⟨he, rfl⟩ := Prod.mk.inj h
      obtain rfl := Except.ok.inj he
      exact .cons hn (ih.1 hns)
    · intro h
      cases h with
      | cons hn hns =>
        exact ⟨_, _, hn, (on_bind_eq_ok_iff (steady_mapM hsub)).2 ⟨_, _, ih.2 hns, rfl⟩⟩

theorem on_call_eq_ok_iff {shape : CallShape} {n : Node} (h : callForm? t = some shape) :
    (Form.call sub t).on env = (.ok n, env') ↔ Formed sub.Reads t env (.call shape) n env' := by
  simp only [call_of_some h, on_bind_eq_ok_iff (hsub _), on_ofExcept_bind_eq_ok_iff,
    Form.expressions, on_bind_eq_ok_iff (steady_mapM hsub), on_mapM_eq_ok_iff hsub,
    on_pure_eq_ok_iff]
  constructor
  · rintro ⟨f, env₁, hf, gs, hg, as, env₂, ha, rfl, rfl⟩
    exact .call hf hg ha
  · intro hf
    cases hf with
    | call hf hg ha => exact ⟨_, _, hf, _, hg, _, _, ha, rfl, rfl⟩

theorem on_list_eq_ok_iff {inner : Text} {n : Node} (h : unwrap? .curly t = some inner) :
    (Form.list sub t).on env = (.ok n, env') ↔ Formed sub.Reads t env (.list inner) n env' := by
  simp only [Form.list, h, Form.expressions, on_bind_eq_ok_iff (steady_mapM hsub),
    on_mapM_eq_ok_iff hsub, on_pure_eq_ok_iff]
  constructor
  · rintro ⟨es, env₁, he, rfl, rfl⟩
    exact .list he
  · intro hf
    cases hf with
    | list he => exact ⟨_, _, he, rfl, rfl⟩

theorem on_statements_eq_ok_iff {text : Text} {body : List Node} :
    (Form.statements sub text).on env = (.ok body, env')
      ↔ ∃ items, bodyItems? text = some items ∧ Chain sub.Reads items env body env' := by
  cases hi : bodyItems? text with
  | none =>
    obtain ⟨last, hr⟩ := statements_of_none sub hi
    simp [hr]
  | some items =>
    rw [statements_of_some hi, on_mapM_eq_ok_iff hsub]
    simp

theorem on_lambdaBody_eq_ok_iff {params : List Parameter} {text : Text} {body : List Node}
    {type : SourceType} :
    (Form.lambdaBody sub params text).on env = (.ok (body, type), env')
      ↔ ∃ items, bodyItems? text = some items
        ∧ Chain sub.Reads items (env.bindParameters params) body env'
        ∧ (typeOfBody env' body).result = .ok type := by
  simp only [Form.lambdaBody, on_modifyEnv_bind, on_bind_eq_ok_iff (steady_statements hsub),
    on_statements_eq_ok_iff hsub, on_typing_bind_eq_ok_iff, on_pure_eq_ok_iff]
  constructor
  · rintro ⟨body', env₁, ⟨items, hi, hb⟩, type', ht, he, rfl⟩
    obtain ⟨rfl, rfl⟩ := Prod.mk.inj he
    exact ⟨items, hi, hb, ht⟩
  · rintro ⟨items, hi, hb, ht⟩
    exact ⟨_, _, ⟨items, hi, hb⟩, _, ht, rfl, rfl⟩

omit hsub in
/-- A scope of its own hides what the body binds. -/
theorem on_scopedBody_eq_ok_iff {ownScope : Bool} {params : List Parameter} {text : Text}
    {body : List Node} {type : SourceType} :
    (Form.scopedBody sub ownScope params text).on env = (.ok (body, type), env')
      ↔ ∃ env₁, (Form.lambdaBody sub params text).on env = (.ok (body, type), env₁)
        ∧ env' = if ownScope then env else env₁ := by
  unfold Form.scopedBody
  cases ownScope with
  | true =>
    simp only [if_true, on_isolated]
    constructor
    · intro h
      obtain ⟨h₁, rfl⟩ := Prod.mk.inj h
      exact ⟨_, Prod.ext h₁ rfl, rfl⟩
    · rintro ⟨env₁, h, rfl⟩
      rw [h]
  | false =>
    simp only [Bool.false_eq_true, if_false, on_report_bind]
    constructor
    · intro h
      exact ⟨env', h, rfl⟩
    · rintro ⟨env₁, h, rfl⟩
      exact h

theorem on_lambda_eq_ok_iff {shape : LambdaShape} {n : Node} (h : lambdaShape? t = some shape) :
    (Form.lambda sub t).on env = (.ok n, env')
      ↔ Formed sub.Reads t env (.lambda shape) n env' := by
  simp only [Form.lambda, h, on_ofExcept_bind_eq_ok_iff, on_atomically_eq_ok_iff,
    on_bind_eq_ok_iff (steady_scopedBody hsub _ _ _), Prod.exists, on_scopedBody_eq_ok_iff,
    on_lambdaBody_eq_ok_iff hsub]
  constructor
  · rintro ⟨generics, hg, params, variadic, hp, declared, hd, body, inferred, env₂,
      ⟨env₁, ⟨items, hi, hc, ht⟩, rfl⟩, hend⟩
    cases declared with
    | none =>
      obtain ⟨rfl, rfl⟩ := on_pure_eq_ok_iff.1 hend
      exact .lambda hg hp hd hi hc ht fun type he => by cases he
    | some type =>
      simp only at hend
      split at hend
      · next hs =>
        obtain ⟨rfl, rfl⟩ := on_pure_eq_ok_iff.1 hend
        refine .lambda hg hp hd hi hc ht fun type' he => ?_
        rwa [← Option.some.inj he]
      · cases hend
  · intro hf
    cases hf with
    | @lambda _ generics params variadic declared items body inferred env₁ hg hp hd hi hc ht hs =>
      refine ⟨generics, hg, params, variadic, hp, declared, hd, body, inferred, _,
        ⟨env₁, ⟨items, hi, hc, ht⟩, rfl⟩, ?_⟩
      cases declared with
      | none => rfl
      | some type =>
        simp only [hs type rfl]
        rfl

theorem on_short_eq_ok_iff {inner : Text} {n : Node} (h : unwrap? .square t = some inner) :
    (Form.short sub t).on env = (.ok n, env') ↔ Formed sub.Reads t env (.short inner) n env' := by
  simp only [Form.short, h, on_bind_eq_ok_iff (hsub _), on_typing_bind_eq_ok_iff,
    on_pure_eq_ok_iff]
  constructor
  · rintro ⟨b, env₁, hb, type, ht, rfl, rfl⟩
    exact .short hb ht
  · intro hf
    cases hf with
    | short hb ht => exact ⟨_, _, hb, _, ht, rfl, rfl⟩

theorem on_member_eq_ok_iff {parent : Text} {name : Name} {n : Node}
    (h : memberForm? t = some (parent, name)) :
    (Form.member sub t).on env = (.ok n, env')
      ↔ Formed sub.Reads t env (.member parent name) n env' := by
  simp only [member_of_some h, on_bind_eq_ok_iff (hsub _), on_pure_eq_ok_iff]
  constructor
  · rintro ⟨p, env₁, hp, rfl, rfl⟩
    exact .member hp
  · intro hf
    cases hf with
    | member hp => exact ⟨_, _, hp, rfl, rfl⟩

theorem on_giveBack_eq_ok_iff {value : Option Text} {n : Node} (h : returnShape? t = some value) :
    (Form.giveBack sub t).on env = (.ok n, env')
      ↔ Formed sub.Reads t env (.giveBack value) n env' := by
  cases value with
  | none =>
    simp only [Form.giveBack, h, on_pure_eq_ok_iff]
    constructor
    · rintro ⟨rfl, rfl⟩
      exact .giveBack
    · intro hf
      cases hf
      exact ⟨rfl, rfl⟩
  | some v =>
    simp only [Form.giveBack, h, on_bind_eq_ok_iff (hsub _), on_pure_eq_ok_iff]
    constructor
    · rintro ⟨m, env₁, hm, rfl, rfl⟩
      exact .giveValue hm
    · intro hf
      cases hf with
      | giveValue hm => exact ⟨_, _, hm, rfl, rfl⟩

theorem on_declare_eq_ok_iff {constant : Bool} {name : Name} {declared : Option SourceType}
    {value : Text} {n : Node} :
    (Form.declare sub t constant name declared value).on env = (.ok n, env')
      ↔ ∃ v env₁ inferred, sub.Reads value (declared.elim env fun type => env.insert name type) v env₁
        ∧ (typeOf env₁ v).result = .ok inferred
        ∧ (∀ type, declared = some type → (type == inferred) = true)
        ∧ n = .declaration constant name declared (declared.getD inferred) v
        ∧ env' = env₁.insert name (declared.getD inferred) := by
  have hend (env : TypeEnv) (v : Node) (type : SourceType) :
      (do
        report (.bound name type)
        modifyEnv (·.insert name type)
        return Node.declaration constant name declared type v : ParseM Node).on env
        = (.ok (.declaration constant name declared type v), env.insert name type) := by
    rw [on_report_bind, on_modifyEnv_bind, on_pure]
  cases declared with
  | none =>
    simp only [Form.declare, on_bind_eq_ok_iff (hsub _), on_typing_bind_eq_ok_iff,
      on_bind_eq_ok_iff (steady_pure _), on_pure_eq_ok_iff, hend, Prod.mk.injEq, Except.ok.injEq,
      Option.elim_none, Option.getD_none]
    constructor
    · rintro ⟨v, env₁, hv, inferred, ht, _, _, ⟨rfl, rfl⟩, rfl, rfl⟩
      refine ⟨v, env₁, inferred, hv, ht, ?_, rfl, rfl⟩
      intro type he
      cases he
    · rintro ⟨v, env₁, inferred, hv, ht, _, rfl, rfl⟩
      exact ⟨v, env₁, hv, inferred, ht, inferred, env₁, ⟨rfl, rfl⟩, rfl, rfl⟩
  | some type =>
    simp only [Form.declare, on_modifyEnv_bind, on_bind_eq_ok_iff (hsub _),
      on_typing_bind_eq_ok_iff, Option.elim_some, Option.getD_some]
    constructor
    · rintro ⟨v, env₁, hv, inferred, ht, h⟩
      split at h
      · next hs =>
        obtain ⟨_, _, hp, h⟩ := (on_bind_eq_ok_iff (steady_pure _)).1 h
        obtain ⟨rfl, rfl⟩ := on_pure_eq_ok_iff.1 hp
        rw [hend] at h
        obtain ⟨hn, rfl⟩ := Prod.mk.inj h
        refine ⟨v, env₁, inferred, hv, ht, ?_, (Except.ok.inj hn).symm, rfl⟩
        intro u hu
        rwa [← Option.some.inj hu]
      · obtain ⟨_, _, hp, _⟩ := (on_bind_eq_ok_iff (steady_reject _ _)).1 h
        cases hp
    · rintro ⟨v, env₁, inferred, hv, ht, hs, rfl, rfl⟩
      refine ⟨v, env₁, hv, inferred, ht, ?_⟩
      simp only [hs type rfl, if_true]
      exact (on_bind_eq_ok_iff (steady_pure _)).2 ⟨_, _, rfl, hend _ _ _⟩

theorem on_declaration_eq_ok_iff {constant : Bool} {rest : Text} {n : Node}
    (h : declarationShape? t = some (constant, rest)) :
    (Form.declaration sub t).on env = (.ok n, env')
      ↔ Formed sub.Reads t env (.declaration constant rest) n env' := by
  simp only [Form.declaration, h]
  constructor
  · intro hr
    split at hr
    · cases hr
    · next hname =>
      split at hr
      · cases hr
      · next before value hc =>
        rw [on_ofExcept_bind_eq_ok_iff] at hr
        obtain ⟨declared, hd, hr⟩ := hr
        rw [on_atomically_eq_ok_iff, on_declare_eq_ok_iff hsub] at hr
        obtain ⟨v, env₁, inferred, hv, ht, hs, rfl, rfl⟩ := hr
        exact .declaration (by simpa using hname) hc hd hv ht hs
  · intro hf
    cases hf with
    | declaration hname hc hd hv ht hs =>
      simp only [hname, hc, Bool.not_true, Bool.false_eq_true, if_false]
      rw [on_ofExcept_bind_eq_ok_iff]
      refine ⟨_, hd, ?_⟩
      rw [on_atomically_eq_ok_iff, on_declare_eq_ok_iff hsub]
      exact ⟨_, _, _, hv, ht, hs, rfl, rfl⟩

theorem on_memberParts_eq_ok_iff {p : Node} {name : Name} :
    (Form.memberParts sub t).on env = (.ok (p, name), env')
      ↔ ∃ parent, memberForm? t = some (parent, name) ∧ sub.Reads parent env p env' := by
  cases hm : memberForm? t with
  | none =>
    rw [memberParts_of_none hm]
    simp
  | some q =>
    obtain ⟨parent, name'⟩ := q
    simp only [memberParts_of_some hm, on_bind_eq_ok_iff (hsub _), on_pure_eq_ok_iff,
      Prod.mk.injEq, Option.some.injEq]
    constructor
    · rintro ⟨p, env₁, hp, ⟨rfl, rfl⟩, rfl⟩
      exact ⟨parent, ⟨rfl, rfl⟩, hp⟩
    · rintro ⟨_, ⟨rfl, rfl⟩, hp⟩
      exact ⟨_, _, hp, ⟨rfl, rfl⟩, rfl⟩

theorem on_target_eq_ok_iff {before : Text} {target : Target} :
    (Form.target sub before).on env = (.ok target, env')
      ↔ Targeted sub.Reads (stripParens before) env target env' := by
  unfold Form.target
  simp only
  cases hd : dereferenceShape? (stripParens before) with
  | some name => simp only [on_pure_eq_ok_iff, targeted_iff_of_dereferenceShape? hd]
  | none =>
    cases hn : isName (stripParens before) with
    | true => simp only [if_true, on_pure_eq_ok_iff, targeted_iff_of_isName hd hn]
    | false =>
      simp only [Bool.false_eq_true, if_false, orReject, on_mapError_eq_ok_iff,
        on_bind_eq_ok_iff (steady_memberParts hsub), Prod.exists, on_memberParts_eq_ok_iff hsub,
        on_pure_eq_ok_iff, targeted_iff_of_not_isName hd hn]
      constructor
      · rintro ⟨p, name, env₁, ⟨parent, hm, hp⟩, rfl, rfl⟩
        exact ⟨parent, name, p, hm, hp, rfl⟩
      · rintro ⟨parent, name, p, hm, hp, rfl⟩
        exact ⟨p, name, env', ⟨parent, hm, hp⟩, rfl, rfl⟩

theorem on_assignment_eq_ok_iff {before after : Text} {n : Node}
    (h : cutAssignment t = some (before, after)) :
    (Form.assignment sub t).on env = (.ok n, env')
      ↔ Formed sub.Reads t env (.assignment before after) n env' := by
  simp only [Form.assignment, h, on_bind_eq_ok_iff (steady_target hsub), on_target_eq_ok_iff hsub,
    on_bind_eq_ok_iff (hsub _), on_typing_bind_eq_ok_iff, on_pure_eq_ok_iff]
  constructor
  · rintro ⟨target, env₁, htarget, v, env₂, hv, type, ht, rfl, rfl⟩
    exact .assignment htarget hv ht
  · intro hf
    cases hf with
    | assignment htarget hv ht => exact ⟨_, _, htarget, _, _, hv, _, ht, rfl, rfl⟩

omit hsub in
theorem on_number_eq_ok_iff {n : Node} (h : isNumeral t = true) :
    (Form.literal t).on env = (.ok n, env') ↔ Formed sub.Reads t env .number n env' := by
  rw [literal_of_isNumeral h, Form.number, h]
  cases hx : Double.ofPositional? t with
  | none =>
    constructor
    · intro hr
      cases hr
    · intro hf
      cases hf with
      | number hx' =>
        rw [hx] at hx'
        cases hx'
  | some x =>
    constructor
    · intro hr
      obtain ⟨rfl, rfl⟩ := on_pure_eq_ok_iff.1 hr
      exact .number hx
    · intro hf
      cases hf with
      | number hx' =>
        rw [hx] at hx'
        obtain rfl := Option.some.inj hx'
        rfl

omit hsub in
theorem on_string_eq_ok_iff {raw : Text} {n : Node} (h : quoted? t = some raw) :
    (Form.literal t).on env = (.ok n, env') ↔ Formed sub.Reads t env (.string raw) n env' := by
  rw [literal_of_quoted? h, on_pure_eq_ok_iff]
  constructor
  · rintro ⟨rfl, rfl⟩
    exact .string
  · intro hf
    cases hf
    exact ⟨rfl, rfl⟩

omit hsub in
theorem on_reference_eq_ok_iff {name : Name} {n : Node} (h : referenceShape? t = some name) :
    (Form.literal t).on env = (.ok n, env')
      ↔ Formed sub.Reads t env (.reference name) n env' := by
  rw [literal_of_referenceShape? h]
  simp only [Form.reference, h]
  cases hn : isName name with
  | true =>
    simp only [if_true, on_pure_eq_ok_iff]
    constructor
    · rintro ⟨rfl, rfl⟩
      exact .reference hn
    · intro hf
      cases hf
      exact ⟨rfl, rfl⟩
  | false =>
    constructor
    · intro hr
      cases hr
    · intro hf
      cases hf with
      | reference hn' =>
        rw [hn] at hn'
        cases hn'

omit hsub in
theorem on_var_eq_ok_iff {n : Node} (h : isName t = true) :
    (Form.var t).on env = (.ok n, env') ↔ Formed sub.Reads t env .var n env' := by
  rw [var_of_isName h, on_pure_eq_ok_iff]
  constructor
  · rintro ⟨rfl, rfl⟩
    exact .var
  · intro hf
    cases hf
    exact ⟨rfl, rfl⟩

/-- What the parser of a form reads is one step. -/
theorem on_form_eq_ok_iff {k : FormShape} {n : Node} (h : k.Fits t) :
    (k.parser sub t).on env = (.ok n, env') ↔ Formed sub.Reads t env k n env' := by
  cases k with
  | call => exact on_mapError_eq_ok_iff.trans (on_call_eq_ok_iff hsub h)
  | number => exact on_number_eq_ok_iff h
  | string => exact on_string_eq_ok_iff h
  | reference => exact on_reference_eq_ok_iff h
  | list => exact on_mapError_eq_ok_iff.trans (on_list_eq_ok_iff hsub h)
  | lambda => exact on_mapError_eq_ok_iff.trans (on_lambda_eq_ok_iff hsub h)
  | short => exact on_mapError_eq_ok_iff.trans (on_short_eq_ok_iff hsub h)
  | member => exact on_mapError_eq_ok_iff.trans (on_member_eq_ok_iff hsub h)
  | giveBack => exact on_mapError_eq_ok_iff.trans (on_giveBack_eq_ok_iff hsub h)
  | declaration => exact on_mapError_eq_ok_iff.trans (on_declaration_eq_ok_iff hsub h)
  | assignment => exact on_mapError_eq_ok_iff.trans (on_assignment_eq_ok_iff hsub h)
  | var => exact on_var_eq_ok_iff h

end

/-! ### Readings -/

def Reads : Reading.Relation := Parser.Reads expression

/-- A reading is one step by the form of its text, and the readings inside it. -/
theorem reads_iff {t : Text} {env env' : TypeEnv} {n : Node} :
    Reads t env n env'
      ↔ ∃ k, formShape? (stripParens t) = some k ∧ Formed Reads (stripParens t) env k n env' := by
  unfold Reads
  rw [Parser.Reads, on_expression]
  cases hk : formShape? (stripParens t) with
  | none => simp
  | some k => simp [on_form_eq_ok_iff steady_expression (fits_of_formShape? hk)]

/-! ### Induction -/

section

variable {R S : Reading.Relation} {t : Text} {env env' : TypeEnv} {n : Node}

theorem Chain.imp_mem {ts : List Text} {ns : List Node} (h : Chain R ts env ns env')
    (hRS : ∀ u ∈ ts, ∀ e m e', R u e m e' → S u e m e') : Chain S ts env ns env' := by
  induction h with
  | nil => exact .nil
  | cons hn _ ih =>
    refine .cons (hRS _ (List.mem_cons_self ..) _ _ _ hn) (ih ?_)
    exact fun u hu => hRS u (List.mem_cons_of_mem _ hu)

/-- The texts and the nodes of a chain, one by one. -/
theorem Chain.forall₂ {P : Text → Node → Prop} {ts : List Text} {ns : List Node}
    (h : Chain R ts env ns env') (hR : ∀ u e m e', R u e m e' → P u m) : List.Forall₂ P ts ns := by
  induction h with
  | nil => exact .nil
  | cons hn _ ih => exact .cons (hR _ _ _ _ hn) ih

theorem length_of_memberForm? {parent : Text} {name : Name}
    (h : memberForm? t = some (parent, name)) : parent.length < t.length :=
  length_of_memberShape? (Option.filter_eq_some_iff.1 h).1

theorem length_of_mem_bodyItems? {items : List Text} (h : bodyItems? t = some items) :
    ∀ u ∈ items, u.length ≤ t.length := fun u hu =>
  Nat.le_trans (length_of_mem_splitTop (mem_splitTop_of_mem_bodyItems? h u hu)) (length_trim_le t)

/-- A step depends on shorter texts only. -/
theorem Formed.imp_shorter {k : FormShape} (h : Formed R t env k n env') (hk : k.Fits t)
    (hRS : ∀ u, u.length < t.length → ∀ e m e', R u e m e' → S u e m e') :
    Formed S t env k n env' := by
  cases h with
  | @call shape _ _ _ _ _ hf hg ha =>
    have hl := length_of_callShape? (Option.filter_eq_some_iff.1 hk).1
    refine .call (hRS _ hl.1 _ _ _ hf) hg (ha.imp_mem fun u hu => hRS u ?_)
    have := length_of_mem_commaItems hu
    omega
  | number hx => exact .number hx
  | string => exact .string
  | reference hn => exact .reference hn
  | list he =>
    have hl := length_of_unwrap? hk
    refine .list (he.imp_mem fun u hu => hRS u ?_)
    have := length_of_mem_commaItems hu
    omega
  | lambda hg hp hd hi hc ht hs =>
    have hl := length_of_lambdaShape? hk
    refine .lambda hg hp hd hi (hc.imp_mem fun u hu => hRS u ?_) ht hs
    have := length_of_mem_bodyItems? hi u hu
    omega
  | short hb ht =>
    have hl := length_of_unwrap? hk
    exact .short (hRS _ (by omega) _ _ _ hb) ht
  | member hp => exact .member (hRS _ (length_of_memberForm? hk) _ _ _ hp)
  | giveBack => exact .giveBack
  | giveValue hv => exact .giveValue (hRS _ (length_of_returnShape? hk) _ _ _ hv)
  | @declaration _ rest _ _ _ _ _ _ hname hc hd hv ht hs =>
    have h₁ := length_of_declarationShape? hk
    have h₂ := length_of_cutFirst hc
    have h₃ := length_trimStart_le (rest.dropWhile isNameChar)
    have h₄ : (rest.dropWhile isNameChar).length ≤ rest.length :=
      (List.dropWhile_suffix _).length_le
    exact .declaration hname hc hd (hRS _ (by omega) _ _ _ hv) ht hs
  | @assignment before _ _ _ _ _ _ htarget hv ht =>
    have h₁ := length_of_cutFirst hk
    have h₂ := length_stripParens_le before
    refine .assignment ?_ (hRS _ h₁.2 _ _ _ hv) ht
    cases htarget with
    | dereference hd => exact .dereference hd
    | var hd hn => exact .var hd hn
    | member hd hn hm hp =>
      have h₃ := length_of_memberForm? hm
      exact .member hd hn hm (hRS _ (by omega) _ _ _ hp)
  | var => exact .var

/-- What holds of each form if it holds of the readings inside holds of every
    reading. -/
theorem reads_induction {P : Reading.Relation}
    (step : ∀ t env k n env', formShape? (stripParens t) = some k →
      Formed (fun u e m e' => Reads u e m e' ∧ P u e m e') (stripParens t) env k n env' →
      P t env n env')
    (h : Reads t env n env') : P t env n env' := by
  induction t using expression.induct generalizing env n env' with
  | case1 t ih =>
    obtain ⟨k, hk, hf⟩ := reads_iff.1 h
    have hlen := length_stripParens_le t
    refine step t env k n env' hk (hf.imp_shorter (fits_of_formShape? hk) ?_)
    intro u hu e m e' hm
    exact ⟨hm, ih u (by omega) hm⟩

end

/-! ### Readings and answers -/

/-- The node of a successful reading. -/
def Reading.node? (r : Reading Node) : Option Node :=
  match r.result with
  | .ok n => if n.isInvalid then none else some n
  | .error _ => none

theorem Reading.node?_eq_some_iff {r : Reading Node} {n : Node} :
    r.node? = some n ↔ r.result = .ok n ∧ n.isInvalid = false := by
  unfold Reading.node?
  cases r.result with
  | error e => simp
  | ok m =>
    simp only [Option.ite_none_left_eq_some, Bool.not_eq_true, Option.some.injEq, Except.ok.injEq]
    constructor
    · rintro ⟨hm, rfl⟩
      exact ⟨rfl, hm⟩
    · rintro ⟨rfl, hm⟩
      exact ⟨hm, rfl⟩

/-- The head and the body of a lambda. -/
def Node.lambda? : Node → Option (LambdaHead × List Node)
  | .lambda head body => some (head, body)
  | .number _ | .string _ | .reference _ | .list _ | .var _ | .call .. | .member ..
  | .declaration .. | .assignment .. | .ret _ | .invalid .. => none

theorem Reading.result_of_lambda? {r : Reading Node} {head : LambdaHead} {body : List Node}
    (h : r.node?.bind Node.lambda? = some (head, body)) : r.result = .ok (.lambda head body) := by
  obtain ⟨n, hn, h⟩ := Option.bind_eq_some_iff.1 h
  cases n <;> cases h
  exact (Reading.node?_eq_some_iff.1 hn).1

theorem Reading.isInvalid_of_node? {r : Reading Node} (h : r.node? = none) :
    ∀ n, r.result = .ok n → n.isInvalid = true := by
  intro n hn
  cases hv : n.isInvalid with
  | true => rfl
  | false =>
    rw [Reading.node?_eq_some_iff.2 ⟨hn, hv⟩] at h
    cases h

section

variable {t : Text} {env env' : TypeEnv} {n : Node}

/-- The invalid node is an answer for texts that have no reading. -/
theorem isInvalid_of_reads (h : Reads t env n env') : n.isInvalid = false := by
  obtain ⟨k, _, hf⟩ := reads_iff.1 h
  cases hf <;> rfl

theorem read_of_on {r : Except ParseError Node} (h : (expression t).on env = (r, env')) :
    (read t env).result = (settle t r).result ∧ (read t env).env = env' := by
  have hr : (expression t ⟨env, 0⟩).result = r := congrArg Prod.fst h
  have he : (expression t ⟨env, 0⟩).state.env = env' := congrArg Prod.snd h
  refine ⟨?_, he⟩
  show (settle t (expression t ⟨env, 0⟩).result).result = (settle t r).result
  rw [hr]

theorem read_of_reads (h : Reads t env n env') :
    (read t env).result = .ok n ∧ (read t env).env = env' := read_of_on h

/-- An answer was read, or is the invalid node of the text. -/
theorem reads_or_sentinel_of_read (h : (read t env).result = .ok n) :
    Reads t env n (read t env).env
      ∨ ∃ fragment reason, n = .invalid (trim t) fragment reason
        ∧ (fragment = trim t ∨ ∃ fault form,
          (expression t ⟨env, 0⟩).result = .error (.invalid fragment fault form)) := by
  have hs : (settle t (expression t ⟨env, 0⟩).result).result = .ok n := h
  rcases hr : (expression t ⟨env, 0⟩).result with e | m
  · rw [hr] at hs
    cases e with
    | noMatch =>
      obtain rfl := Except.ok.inj hs
      exact Or.inr ⟨_, _, rfl, Or.inl rfl⟩
    | invalid fragment fault form =>
      obtain rfl := Except.ok.inj hs
      exact Or.inr ⟨_, _, rfl, Or.inr ⟨fault, form, rfl⟩⟩
    | type => cases hs
  · rw [hr] at hs
    obtain rfl := Except.ok.inj hs
    exact Or.inl (Prod.ext hr rfl)

theorem reads_of_read (h : (read t env).result = .ok n) (hv : n.isInvalid = false) :
    Reads t env n (read t env).env := by
  rcases reads_or_sentinel_of_read h with hr | ⟨_, _, rfl, _⟩
  · exact hr
  · cases hv

end

end UnionTyping
