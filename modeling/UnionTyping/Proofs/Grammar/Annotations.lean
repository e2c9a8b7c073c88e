/-
  UnionTyping/Proofs/Grammar/Annotations.lean
  ===========================================
  **Written result types** — a result type between the parameters and the arrow of
  a lambda is compared with the type of the body and changes nothing else.

  The text with the written type has the same pieces as the text without it:
  whatever the type looks like, it is balanced, so that the last group in curly
  brackets is still the body and the sign before that group is still the arrow
  (`lambdaShape?_annotated`).  From there the two readings are one run up to
  the comparison (`on_lambda_annotated`), and what the body has bound by then is
  taken back if the comparison fails.
-/
import UnionTyping.Proofs.Grammar.Lambdas
import UnionTyping.Proofs.Types.NormalForm

namespace UnionTyping

open Text ParseM

/-! ### The two texts -/

section

variable {heading params written body : Text} {generics : Option Text} {own : Bool}
  {type : SourceType}

theorem lambdaShape?_plain (hh : Heading heading generics params)
    (hb : unwrap? .curly ('\x7b' :: (body ++ ['\x7d'])) = some body) :
    lambdaShape? (headedText heading [] own body) = some ⟨generics, params, none, own, body⟩ :=
  lambdaShape?_headedText hh nofun balanced_nil rfl hb

theorem lambdaShape?_annotated (hh : Heading heading generics params)
    (hw : parseType written = .ok type)
    (hb : unwrap? .curly ('\x7b' :: (body ++ ['\x7d'])) = some body) :
    lambdaShape? (headedText heading (':' :: written) own body)
      = some ⟨generics, params, some (trim written), own, body⟩ := by
  have hcolon : Sealed [':'] := sealed_of_plain (by decide)
  have hbalanced : Balanced (':' :: written) := (hcolon.append (sealed_of_parseType hw)).toBalanced
  refine lambdaShape?_headedText hh ?_ hbalanced (resultPart?_colon written) hb
  intro c hc
  obtain rfl := Option.some.inj hc
  decide

end

/-! ### The two runs -/

section

variable {sub : Parser Node} {t u w : Text} {env : TypeEnv} {type : SourceType}
  {generics : Option Text} {params body : Text} {own : Bool}

variable (env) in
/-- With and without the written type the lambda fails before the comparison, or it
    comes to the comparison with one body. -/
theorem on_lambda_annotated (hsub : ∀ v, Steady (sub v))
    (ht : lambdaShape? t = some ⟨generics, params, none, own, body⟩)
    (hu : lambdaShape? u = some ⟨generics, params, some w, own, body⟩)
    (hw : parseType w = .ok type) :
    (∃ e, (Form.lambda sub t).on env = (.error e, env)
        ∧ (Form.lambda sub u).on env = (.error e, env))
      ∨ ∃ head ns env₁, (Form.lambda sub t).on env = (.ok (.lambda head ns), env₁)
        ∧ (Form.lambda sub u).on env
          = if type == head.result then
              (.ok (.lambda { head with result := type, explicit := true } ns), env₁)
            else (.error (.reject u (.resultMismatch type head.result)), env) := by
  have hnone : (none : Option Text).mapM parseType = .ok none := rfl
  have hsome : (some w).mapM parseType = .ok (some type) := by
    rw [Option.mapM_some, hw]
    rfl
  simp only [Form.lambda, ht, hu, hnone, hsome, on_bind (steady_ofExcept _), on_ofExcept]
  rcases genericNames generics with e | names
  · exact Or.inl ⟨e, rfl, rfl⟩
  rcases parseParameters params with e | ⟨ps, variadic⟩
  · exact Or.inl ⟨e, rfl, rfl⟩
  simp only [on_atomically, on_bind (steady_scopedBody hsub _ _ _)]
  rcases (Form.scopedBody sub own ps body).on env with ⟨e | ⟨ns, inferred⟩, env₁⟩
  · exact Or.inl ⟨e, rfl, rfl⟩
  · refine Or.inr ⟨⟨names, ps, inferred, false, own, false, variadic⟩, ns, env₁, rfl, ?_⟩
    cases hsame : type == inferred with
    | true => simp [hsame]
    | false => simp [hsame]

/-- A failure is an answer: the type error, or the invalid node. -/
theorem settle_error (e : ParseError) :
    (∃ error, ∀ t, (settle t (.error e)).result = .error error)
      ∨ ∀ t, ∃ n, (settle t (.error e)).result = .ok n ∧ n.isInvalid = true := by
  cases e with
  | noMatch | invalid => exact Or.inr fun t => ⟨_, rfl, rfl⟩
  | type error => exact Or.inl ⟨error, fun t => rfl⟩

end

/-! ### The two answers -/

/-- How the answer to a lambda with the result type `type` comes from the answer to
    the lambda without it, both read in `env`. -/
structure Annotated (type : SourceType) (env : TypeEnv) (plain annotated : Reading Node) :
    Prop where
  /-- A type error stays the same one. -/
  error : ∀ e, plain.result = .error e → annotated.result = .error e ∧ annotated.env = plain.env
  /-- What is malformed stays so. -/
  invalid : ∀ n, plain.result = .ok n → n.isInvalid = true →
    ∃ m, annotated.result = .ok m ∧ m.isInvalid = true ∧ annotated.env = plain.env
  /-- Anything else is a lambda. -/
  lambda : ∀ n, plain.result = .ok n → n.isInvalid = false → ∃ head body, n = .lambda head body
  /-- The type of the body may be written. -/
  agrees : ∀ head body, plain.result = .ok (.lambda head body) → (type == head.result) = true →
    annotated.result = .ok (.lambda { head with result := type, explicit := true } body)
      ∧ annotated.env = plain.env
  /-- No other type may be written, and nothing stays bound. -/
  differs : ∀ head body, plain.result = .ok (.lambda head body) → (type == head.result) = false →
    ∃ m, annotated.result = .ok m ∧ m.isInvalid = true ∧ annotated.env = env
  /-- It does not matter which of the two types is compared with the other. -/
  symmetric : env.Normalized → ∀ head body, plain.result = .ok (.lambda head body) →
    (head.result == type) = (type == head.result)

section

variable {t u : Text} {env env' : TypeEnv} {type : SourceType}

variable (env) in
theorem on_expression_lambda {shape : LambdaShape} (ht : Bracketed t)
    (h : lambdaShape? t = some shape) :
    (expression t).on env = (((Form.lambda expression t).on env).1.mapError
      (.inForm "lambda".toList), ((Form.lambda expression t).on env).2) := by
  rw [on_expression, ht.stripParens, formShape?_of_lambdaShape? ht h]
  rfl

/-- Both texts fail for one reason. -/
theorem Annotated.of_error {e : ParseError} (ht : (expression t).on env = (.error e, env))
    (hu : (expression u).on env = (.error e, env)) :
    Annotated type env (read t env) (read u env) := by
  obtain ⟨htr, hte⟩ := read_of_on ht
  obtain ⟨hur, hue⟩ := read_of_on hu
  have henv : (read u env).env = (read t env).env := hue.trans hte.symm
  rcases settle_error e with ⟨error, herror⟩ | hinvalid
  · rw [herror] at htr hur
    have hnot {n : Node} (hn : (read t env).result = .ok n) : False := by
      rw [htr] at hn
      cases hn
    exact {
      error := fun e' he => ⟨hur.trans (htr.symm.trans he), henv⟩
      invalid := fun n hn => (hnot hn).elim
      lambda := fun n hn => (hnot hn).elim
      agrees := fun head body hn => (hnot hn).elim
      differs := fun head body hn => (hnot hn).elim
      symmetric := fun _ head body hn => (hnot hn).elim }
  · obtain ⟨n, hn, hnv⟩ := hinvalid t
    obtain ⟨m, hm, hmv⟩ := hinvalid u
    rw [hn] at htr
    rw [hm] at hur
    have hnot {n' : Node} (hn' : (read t env).result = .ok n') : n'.isInvalid = true := by
      rw [htr] at hn'
      rwa [← Except.ok.inj hn']
    exact {
      error := fun e' he => by
        rw [htr] at he
        cases he
      invalid := fun n' _ _ => ⟨m, hur, hmv, henv⟩
      lambda := fun n' hn' hv => absurd (hnot hn') (by simp [hv])
      agrees := fun head body hn' => absurd (hnot hn') (by simp [Node.isInvalid])
      differs := fun head body hn' => absurd (hnot hn') (by simp [Node.isInvalid])
      symmetric := fun _ head body hn' => absurd (hnot hn') (by simp [Node.isInvalid]) }

/-- Both texts come to the comparison. -/
theorem Annotated.of_lambda {head : LambdaHead} {ns : List Node} (fault : Fault)
    (htype : type.Normalized)
    (ht : (expression t).on env = (.ok (.lambda head ns), env'))
    (hu : (expression u).on env = if type == head.result then
        (.ok (.lambda { head with result := type, explicit := true } ns), env')
      else (.error (.invalid u fault (some "lambda".toList)), env)) :
    Annotated type env (read t env) (read u env) := by
  obtain ⟨htr, hte⟩ := read_of_on ht
  have hnode {n : Node} (hn : (read t env).result = .ok n) : n = .lambda head ns := by
    rw [htr] at hn
    exact (Except.ok.inj hn).symm
  constructor
  case error =>
    intro e he
    rw [htr] at he
    cases he
  case invalid =>
    intro n hn hv
    rw [hnode hn] at hv
    cases hv
  case lambda => exact fun n hn _ => ⟨head, ns, hnode hn⟩
  case agrees =>
    intro head' body hn hsame
    obtain ⟨rfl, rfl⟩ := Node.lambda.inj (hnode hn)
    rw [if_pos hsame] at hu
    obtain ⟨hur, hue⟩ := read_of_on hu
    exact ⟨hur, hue.trans hte.symm⟩
  case differs =>
    intro head' body hn hdiffers
    obtain ⟨rfl, rfl⟩ := Node.lambda.inj (hnode hn)
    rw [if_neg (by simp [hdiffers])] at hu
    obtain ⟨hur, hue⟩ := read_of_on hu
    exact ⟨_, hur, rfl, hue⟩
  case symmetric =>
    intro henv head' body hn
    obtain ⟨rfl, rfl⟩ := Node.lambda.inj (hnode hn)
    -- the types in the answer are normalized like those of the environment
    have heach := (each_read lasting_settled t (TypeEnv.normalized_iff.1 henv)).2.of_ok htr
    have hresult : head'.result.Normal :=
      heach _ (List.mem_append_left _ (by simp [LambdaHead.types]))
    rw [Bool.eq_iff_iff]
    exact ⟨UnionType.same_symm hresult, UnionType.same_symm (normalized_iff.1 htype)⟩

end

/-- A written result type is compared with the type of the body and changes nothing
    else. -/
theorem read_annotated (heading written body : Text) (own : Bool) (env : TypeEnv)
    {generics : Option Text} {params : Text} {type : SourceType}
    (hh : Heading heading generics params)
    (hb : unwrap? .curly ('\x7b' :: (body ++ ['\x7d'])) = some body)
    (hw : parseType written = .ok type) :
    Annotated type env (read (headedText heading [] own body) env)
      (read (headedText heading (':' :: written) own body) env) := by
  have hplain : lambdaShape? (headedText heading [] own body) = _ := lambdaShape?_plain hh hb
  have hannotated : lambdaShape? (headedText heading (':' :: written) own body) = _ :=
    lambdaShape?_annotated hh hw hb
  have ht := on_expression_lambda env (bracketed_headedText hh) hplain
  have hu := on_expression_lambda env (bracketed_headedText hh) hannotated
  have htrim : parseType (trim written) = .ok type := by rw [parseType_trim, hw]
  rcases on_lambda_annotated env steady_expression hplain hannotated htrim with
    ⟨e, het, heu⟩ | ⟨head, ns, env₁, hot, hou⟩
  · rw [het] at ht
    rw [heu] at hu
    exact .of_error ht hu
  · rw [hot] at ht
    refine .of_lambda (.resultMismatch type head.result) (normalized_of_parseType hw) ht ?_
    rw [hu, hou]
    cases type == head.result <;> rfl

/-- The written type has brackets, an arrow and a bar of its own, and the body binds
    a name before its type is compared. -/
theorem read_annotated_function :
    let heading := "[T] (x:T)".toList
    let written := " (number)!=>list[(string|number)] ".toList
    let body := "var s = \"=>\x7b\"; (n:number)=>\x7b\x7bs, n\x7d\x7d;".toList
    Heading heading (some "T".toList) "x:T".toList
      ∧ unwrap? .curly ('\x7b' :: (body ++ ['\x7d'])) = some body
      ∧ (read (headedText heading (':' :: written) false body) .initial).node?.map Node.text
        = some ("[T](x:T[]):(number[])!=>list[string[]|number[]]".toList
          ++ "~>\x7bvar s = \"=>\x7b\";(n:number[])=>\x7b\x7bs,n\x7d\x7d;\x7d".toList)
      ∧ ∃ type, parseType written = .ok type
        ∧ Annotated type .initial (read (headedText heading [] false body) .initial)
            (read (headedText heading (':' :: written) false body) .initial) := by
  intro heading written body
  have hsquare : unwrap? .square "[T]".toList = some "T".toList := by decide
  have hround : unwrap? .round "(x:T)".toList = some "x:T".toList := by decide
  have hheading : Heading heading (some "T".toList) "x:T".toList :=
    .generic hsquare blank_blank hround
  have hbody : unwrap? .curly ('\x7b' :: (body ++ ['\x7d'])) = some body := by decide +kernel
  have hsome : (parseType written).toOption.isSome = true := by decide +kernel
  obtain ⟨type, hwritten⟩ := isSome_toOption_iff.1 hsome
  exact ⟨hheading, hbody, by decide +kernel, type, hwritten,
    read_annotated heading written body false .initial hheading hbody hwritten⟩

end UnionTyping
