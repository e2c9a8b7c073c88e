/-
  UnionTyping/Proofs/Grammar/TwoRuns.lean
  =======================================
  **Two runs on one text** — the same text read in two environments.  What the
  environments, and the types and nodes made on the way, have to do with each
  other is a *coupling*: relations that the steps of the parser respect.  Every
  expression respects a lawful coupling (`Coupling.Lawful.relates_expression`):
  from coupled environments both runs end in coupled environments, both with
  coupled nodes or both with coupled errors.

  The laws say what has to be known about types and environments, one law for
  each kind of node and one for each kind of step; the induction over the text
  and the way through the forms is done here once.  A coupling may be confined to
  some texts, as long as it goes on to all texts within them.
-/
import UnionTyping.Proofs.Grammar.Pieces

namespace UnionTyping

open Text ParseM

/-! ### Runs side by side -/

namespace ParseM

variable {α β γ δ : Type}

/-- From environments related by `I` both runs come to such environments; their
    values are related by `Q` or their errors by `E`. -/
def Relates (I : TypeEnv → TypeEnv → Prop) (E : ParseError → ParseError → Prop)
    (Q : α → β → Prop) (x : ParseM α) (y : ParseM β) : Prop :=
  ∀ s s', I s.env s'.env →
    I (x s).state.env (y s').state.env ∧ Corresponds E Q (x s).result (y s').result

section

variable {I : TypeEnv → TypeEnv → Prop} {E : ParseError → ParseError → Prop} {Q : α → β → Prop}
  {R : γ → δ → Prop} {x : ParseM α} {y : ParseM β} {f : α → ParseM γ} {g : β → ParseM δ}

theorem relates_pure {a : α} {b : β} (h : Q a b) : Relates I E Q (pure a) (pure b) :=
  fun _ _ hs => ⟨hs, h⟩

theorem relates_fail {e e' : ParseError} (h : E e e') :
    Relates I E Q (fail e : ParseM α) (fail e' : ParseM β) := fun _ _ hs => ⟨hs, h⟩

theorem relates_ofExcept {r : Except ParseError α} {r' : Except ParseError β}
    (h : Corresponds E Q r r') : Relates I E Q (ofExcept r) (ofExcept r') := fun _ _ hs => ⟨hs, h⟩

theorem relates_typing {F : TypeError → TypeError → Prop} {h : TypeEnv → Typing α}
    {k : TypeEnv → Typing β} (hF : ∀ e e', F e e' → E (.type e) (.type e'))
    (hk : ∀ env env', I env env' → Corresponds F Q (h env).result (k env').result) :
    Relates I E Q (typing h) (typing k) := by
  intro s s' hs
  refine ⟨hs, ?_⟩
  have hc := hk s.env s'.env hs
  show Corresponds E Q ((h s.env).result.mapError .type) ((k s'.env).result.mapError .type)
  rcases hr : (h s.env).result with e | a <;> rcases hr' : (k s'.env).result with e' | b <;>
    rw [hr, hr'] at hc
  · exact hF e e' hc
  · exact hc
  · exact hc
  · exact hc

theorem relates_report (e e' : Event) :
    Relates I E (fun _ _ => True) (report e) (report e') := fun _ _ hs => ⟨hs, trivial⟩

theorem relates_reportFormed (n m : Node) (t : Text) :
    Relates I E (fun _ _ => True) (reportFormed n t) (reportFormed m t) :=
  fun _ _ hs => ⟨hs, trivial⟩

theorem relates_modifyEnv {h k : TypeEnv → TypeEnv}
    (hk : ∀ env env', I env env' → I (h env) (k env')) :
    Relates I E (fun _ _ => True) (modifyEnv h) (modifyEnv k) :=
  fun s s' hs => ⟨hk s.env s'.env hs, trivial⟩

theorem relates_bind (hxy : Relates I E Q x y) (hfg : ∀ a b, Q a b → Relates I E R (f a) (g b)) :
    Relates I E R (x >>= f) (y >>= g) := by
  intro s s' hs
  obtain ⟨hi, hq⟩ := hxy s s' hs
  rw [bind_apply, bind_apply]
  rcases hr : (x s).result with e | a <;> rcases hr' : (y s').result with e' | b <;>
    rw [hr, hr'] at hq
  · exact ⟨hi, hq⟩
  · exact hq.elim
  · exact hq.elim
  · exact hfg a b hq _ _ hi

theorem relates_atomically (hxy : Relates I E Q x y) :
    Relates I E Q (atomically x) (atomically y) := by
  intro s s' hs
  obtain ⟨hi, hq⟩ := hxy s s' hs
  simp only [atomically]
  rcases hr : (x s).result with e | a <;> rcases hr' : (y s').result with e' | b <;>
    simp only [hr, hr'] at hq ⊢
  · exact ⟨hs, hq⟩
  · exact hq.elim
  · exact hq.elim
  · exact ⟨hi, hq⟩

theorem relates_isolated (hxy : Relates I E Q x y) :
    Relates I E Q (isolated x) (isolated y) := fun s s' hs => ⟨hs, (hxy s s' hs).2⟩

theorem relates_nested (hxy : Relates I E Q x y) : Relates I E Q (nested x) (nested y) :=
  fun s s' hs => hxy s.enter s'.enter hs

theorem relates_mapError {h : ParseError → ParseError} (hh : ∀ e e', E e e' → E (h e) (h e'))
    (hxy : Relates I E Q x y) : Relates I E Q (x.mapError h) (y.mapError h) := by
  intro s s' hs
  obtain ⟨hi, hq⟩ := hxy s s' hs
  refine ⟨hi, ?_⟩
  show Corresponds E Q ((x s).result.mapError h) ((y s').result.mapError h)
  rcases hr : (x s).result with e | a <;> rcases hr' : (y s').result with e' | b <;>
    rw [hr, hr'] at hq
  · exact hh e e' hq
  · exact hq
  · exact hq
  · exact hq

theorem relates_mapM {ι : Type} {h : ι → ParseM α} {k : ι → ParseM β} {is : List ι}
    (hk : ∀ i ∈ is, Relates I E Q (h i) (k i)) :
    Relates I E (List.Forall₂ Q) (is.mapM h) (is.mapM k) := by
  induction is with
  | nil => exact relates_pure .nil
  | cons i is ih =>
    rw [List.forall_mem_cons] at hk
    rw [List.mapM_cons, List.mapM_cons]
    refine relates_bind hk.1 fun a b hab => relates_bind (ih hk.2) fun as bs habs => ?_
    exact relates_pure (.cons hab habs)

/-- If one run declines the text so does the other, and both go on. -/
theorem relates_or {p q : Parser α} {p' q' : Parser β} {t : Text}
    (hE : ∀ e e', E e e' → (e = .noMatch ↔ e' = .noMatch)) (hp : Relates I E Q (p t) (p' t))
    (hq : Relates I E Q (q t) (q' t)) : Relates I E Q (p.or q t) (p'.or q' t) := by
  intro s s' hs
  obtain ⟨hi, hr⟩ := hp s s' hs
  simp only [Parser.or]
  rcases hx : (p t s).result with e | a <;> rcases hy : (p' t s').result with e' | b <;>
    rw [hx, hy] at hr
  · have he := hE e e' hr
    by_cases hno : e = .noMatch
    · obtain rfl := hno
      obtain rfl := he.1 rfl
      exact hq _ _ hi
    · have hno' : e' ≠ .noMatch := mt he.2 hno
      cases e with
      | noMatch => exact absurd rfl hno
      | invalid | type =>
        cases e' with
        | noMatch => exact absurd rfl hno'
        | invalid | type => exact ⟨hi, by rw [hx, hy]; exact hr⟩
  · exact hr.elim
  · exact hr.elim
  · exact ⟨hi, by rw [hx, hy]; exact hr⟩

end

end ParseM

/-! ### Couplings -/

/-- Relations between the environments, types, nodes and errors of two runs on one
    of some texts. -/
structure Coupling where
  text : Text → Prop
  env : TypeEnv → TypeEnv → Prop
  type : SourceType → SourceType → Prop
  node : Node → Node → Prop
  error : ParseError → ParseError → Prop

/-- A name that stands in the text. -/
def Coupling.name (C : Coupling) (x : Name) : Prop := isIdentifier x = true ∧ C.text x

inductive Coupling.Target (C : Coupling) : Target → Target → Prop
  | var {x : Name} : C.name x → C.Target (.var x) (.var x)
  | dereference {x : Name} : C.name x → C.Target (.dereference x) (.dereference x)
  | member {p q : Node} (m : Name) : C.node p q → C.Target (.member p m) (.member q m)

/-- The coupling is respected by each step of reading. -/
structure Coupling.Lawful (C : Coupling) : Prop where
  within : ∀ {t u}, C.text t → Within u t → C.text u
  -- environments and types
  written : ∀ {t}, SourceType.Canonical t → C.type t t
  beq : ∀ {a a' b b'}, C.type a a' → C.type b b' → (a == b) = (a' == b')
  insert : ∀ {env env' x t t'}, C.env env env' → C.name x → C.type t t' →
    C.env (env.insert x t) (env'.insert x t')
  typed : ∀ {env env' n n'}, C.env env env' → C.node n n' →
    Corresponds (fun e e' => C.error (.type e) (.type e')) C.type (typeOf env n).result
      (typeOf env' n').result
  -- nodes
  number : ∀ {t x}, Double.ofPositional? t = some x → C.node (.number x) (.number x)
  string : ∀ v, C.node (.string v) (.string v)
  reference : ∀ {x}, C.name x → C.node (.reference x) (.reference x)
  list : ∀ {es es'}, List.Forall₂ C.node es es' → C.node (.list es) (.list es')
  lambda : ∀ {h : LambdaHead} {t t' ns ns'}, (∀ p ∈ h.params, SourceType.Canonical p.type) →
    C.type t t' → List.Forall₂ C.node ns ns' →
    C.node (.lambda { h with result := t } ns) (.lambda { h with result := t' } ns')
  var : ∀ {x}, C.name x → C.node (.var x) (.var x)
  call : ∀ {f f' as as' ts}, C.node f f' → (∀ t ∈ ts, SourceType.Canonical t) →
    List.Forall₂ C.node as as' → C.node (.call f as ts) (.call f' as' ts)
  member : ∀ {p p' m}, C.node p p' → C.node (.member p m) (.member p' m)
  declaration : ∀ {c x declared t t' v v'}, (∀ u, declared = some u → SourceType.Canonical u) →
    C.type t t' → C.node v v' →
    C.node (.declaration c x declared t v) (.declaration c x declared t' v')
  assignment : ∀ {t t' v v'}, C.Target t t' → C.node v v' →
    C.node (.assignment t v) (.assignment t' v')
  giveBack : C.node (.ret none) (.ret none)
  giveValue : ∀ {v v'}, C.node v v' → C.node (.ret (some v)) (.ret (some v'))
  -- errors
  noMatch : C.error .noMatch .noMatch
  noMatch_iff : ∀ {e e'}, C.error e e' → (e = .noMatch ↔ e' = .noMatch)
  reject : ∀ fragment fault, C.error (.reject fragment fault) (.reject fragment fault)
  resultMismatch : ∀ {fragment a a' b b'}, C.type a a' → C.type b b' →
    C.error (.reject fragment (.resultMismatch a b)) (.reject fragment (.resultMismatch a' b'))
  valueMismatch : ∀ {fragment x a a' b b'}, C.type a a' → C.type b b' →
    C.error (.reject fragment (.valueMismatch x a b)) (.reject fragment (.valueMismatch x a' b'))
  inForm : ∀ {e e'} form, C.error e e' → C.error (e.inForm form) (e'.inForm form)

namespace Coupling

/-- The two runs respect the coupling. -/
abbrev Relates (C : Coupling) {α β : Type} (Q : α → β → Prop) (x : ParseM α) (y : ParseM β) :
    Prop :=
  ParseM.Relates C.env C.error Q x y

namespace Lawful

variable {C : Coupling} (h : C.Lawful)
include h

section

variable {α β : Type} {Q : α → β → Prop}

theorem relates_noMatch : C.Relates Q (fail .noMatch : ParseM α) (fail .noMatch : ParseM β) :=
  relates_fail h.noMatch

theorem relates_reject (fragment : Text) (fault : Fault) :
    C.Relates Q (ParseM.reject fragment fault : ParseM α)
      (ParseM.reject fragment fault : ParseM β) :=
  relates_fail (h.reject fragment fault)

theorem relates_inForm {x : ParseM α} {y : ParseM β} (form : Text) (hxy : C.Relates Q x y) :
    C.Relates Q (x.mapError (.inForm form)) (y.mapError (.inForm form)) :=
  relates_mapError (fun _ _ => h.inForm form) hxy

theorem relates_orReject {x : ParseM α} {y : ParseM β} (fragment : Text) (fault : Fault)
    (hxy : C.Relates Q x y) :
    C.Relates Q (x.orReject fragment fault) (y.orReject fragment fault) := by
  refine relates_mapError ?_ hxy
  intro e e' he
  have hno := h.noMatch_iff he
  by_cases hn : e = .noMatch
  · obtain rfl := hn
    obtain rfl := hno.1 rfl
    exact h.reject fragment fault
  · have hn' : e' ≠ .noMatch := mt hno.2 hn
    cases e with
    | noMatch => exact absurd rfl hn
    | invalid | type =>
      cases e' with
      | noMatch => exact absurd rfl hn'
      | invalid | type => exact he

/-- What is read without an environment is the same in both runs. -/
theorem relates_read {r : Except ParseError α} {P : α → Prop} (hr : Rejects r)
    (hP : ∀ a, r = .ok a → P a) :
    C.Relates (fun a a' => a = a' ∧ P a) (ofExcept r) (ofExcept r) := by
  refine relates_ofExcept ?_
  cases r with
  | ok a => exact ⟨rfl, hP a rfl⟩
  | error e =>
    obtain ⟨fragment, fault, rfl⟩ := hr e rfl
    exact h.reject fragment fault

end

theorem bindParameters {env env' : TypeEnv} (henv : C.env env env') {ps : List Parameter}
    (hnames : ∀ p ∈ ps, C.name p.name) (htypes : ∀ p ∈ ps, SourceType.Canonical p.type) :
    C.env (env.bindParameters ps) (env'.bindParameters ps) := by
  induction ps generalizing env env' with
  | nil => exact henv
  | cons p ps ih =>
    rw [List.forall_mem_cons] at hnames htypes
    exact ih (h.insert henv hnames.1 (h.written htypes.1)) hnames.2 htypes.2

theorem relates_typeOf {n n' : Node} (hn : C.node n n') :
    C.Relates C.type (typing fun env => typeOf env n) (typing fun env => typeOf env n') :=
  relates_typing (fun _ _ he => he) fun _ _ henv => h.typed henv hn

theorem relates_typeOfBody {ns ns' : List Node} (hns : List.Forall₂ C.node ns ns') :
    C.Relates C.type (typing fun env => typeOfBody env ns)
      (typing fun env => typeOfBody env ns') := by
  refine relates_typing (fun _ _ he => he) fun env env' henv => ?_
  have hvoid : C.type SourceType.void SourceType.void :=
    h.written (canonical_named (by decide) fun a ha => by cases ha)
  rcases List.eq_nil_or_concat ns with rfl | ⟨ms, m, rfl⟩
  · cases hns
    exact hvoid
  · rcases List.eq_nil_or_concat ns' with rfl | ⟨ms', m', rfl⟩
    · have hlen := hns.length_eq
      simp at hlen
    · rw [List.concat_eq_append, List.concat_eq_append] at hns
      have hm : C.node m m' := by
        have hrev := List.rel_reverse hns
        rw [List.reverse_concat, List.reverse_concat] at hrev
        exact (List.forall₂_cons.1 hrev).1
      simp only [typeOfBody, List.concat_eq_append, List.getLast?_concat]
      exact h.typed henv hm

/-! ### Every form respects the coupling -/

section

variable {sub : Parser Node} (hsub : ∀ u, C.text u → C.Relates C.node (sub u) (sub u)) {t : Text}
  (ht : C.text t)
include hsub ht

theorem relates_expressions {u : Text} (hu : Within u t) :
    C.Relates (List.Forall₂ C.node) (Form.expressions sub u) (Form.expressions sub u) :=
  relates_mapM fun v hv => hsub v (h.within ht ((within_of_mem_commaItems hv).trans hu))

theorem relates_statements :
    C.Relates (List.Forall₂ C.node) (Form.statements sub t) (Form.statements sub t) := by
  cases hi : bodyItems? t with
  | some items =>
    rw [statements_of_some hi]
    exact relates_mapM fun u hu => hsub u (h.within ht (within_of_mem_bodyItems? hi u hu))
  | none =>
    obtain ⟨last, he⟩ := statements_of_none sub hi
    rw [he]
    exact h.relates_reject _ _

theorem relates_call : C.Relates C.node (Form.call sub t) (Form.call sub t) := by
  cases hc : callForm? t with
  | none =>
    rw [call_of_none hc]
    exact h.relates_noMatch
  | some shape =>
    obtain ⟨hcaller, harguments⟩ := within_of_callForm? hc
    have hcanonical : ∀ gs, (commaItems shape.generics).mapM parseType = .ok gs →
        ∀ g ∈ gs, SourceType.Canonical g := by
      intro gs hgs g hg
      obtain ⟨u, _, hu⟩ := exists_of_forall₂_right (mapM_eq_ok_iff.1 hgs) g hg
      exact canonical_of_parseType hu
    rw [call_of_some hc]
    refine relates_bind (hsub _ (h.within ht hcaller)) fun f f' hf => ?_
    refine relates_bind (h.relates_read (rejects_types _) hcanonical) ?_
    rintro gs _ ⟨rfl, hgs⟩
    refine relates_bind (h.relates_expressions hsub ht harguments) fun as as' has => ?_
    exact relates_pure (h.call hf hgs has)

theorem relates_list : C.Relates C.node (Form.list sub t) (Form.list sub t) := by
  unfold Form.list
  split
  · exact h.relates_noMatch
  · next inner hu =>
    refine relates_bind (h.relates_expressions hsub ht (within_of_unwrap? hu)) fun es es' hes => ?_
    exact relates_pure (h.list hes)

theorem relates_lambdaBody {ps : List Parameter} (hnames : ∀ p ∈ ps, C.name p.name)
    (htypes : ∀ p ∈ ps, SourceType.Canonical p.type) :
    C.Relates (fun a b => List.Forall₂ C.node a.1 b.1 ∧ C.type a.2 b.2) (Form.lambdaBody sub ps t)
      (Form.lambdaBody sub ps t) := by
  refine relates_bind (relates_modifyEnv fun _ _ henv => h.bindParameters henv hnames htypes)
    fun _ _ _ => ?_
  refine relates_bind (h.relates_statements hsub ht) fun ns ns' hns => ?_
  exact relates_bind (h.relates_typeOfBody hns) fun a a' ha => relates_pure ⟨hns, ha⟩

theorem relates_lambda : C.Relates C.node (Form.lambda sub t) (Form.lambda sub t) := by
  unfold Form.lambda
  split
  · exact h.relates_noMatch
  next shape hl =>
  obtain ⟨hparams, hbody⟩ := within_of_lambdaShape? hl
  refine relates_bind (h.relates_read (P := fun _ => True) (rejects_genericNames _)
    fun _ _ => trivial) ?_
  rintro generics _ ⟨rfl, _⟩
  refine relates_bind (h.relates_read (P := fun a => (∀ p ∈ a.1, C.name p.name)
    ∧ ∀ p ∈ a.1, SourceType.Canonical p.type) (rejects_parseParameters _) ?_) ?_
  · rintro ⟨ps, variadic⟩ hps
    have hcanonical := canonical_of_parseParameters hps
    refine ⟨fun p hp => ⟨isIdentifier_of_isName (hcanonical.names p hp), ?_⟩, hcanonical.types⟩
    exact h.within ht ((within_of_parseParameters hps p hp).trans hparams)
  rintro ⟨ps, variadic⟩ _ ⟨rfl, hnames, htypes⟩
  refine relates_bind (h.relates_read (rejects_declaredType _)
    fun declared hd => canonical_of_declared hd) ?_
  rintro declared _ ⟨rfl, hdeclared⟩
  have hscoped := h.relates_lambdaBody hsub (h.within ht hbody) hnames htypes
  refine relates_atomically (relates_bind
    (Q := fun a b => List.Forall₂ C.node a.1 b.1 ∧ C.type a.2 b.2) ?_ ?_)
  · unfold Form.scopedBody
    split
    · exact relates_isolated hscoped
    · exact relates_bind (relates_report _ _) fun _ _ _ => hscoped
  rintro ⟨ns, a⟩ ⟨ns', a'⟩ ⟨hns, ha⟩
  cases declared with
  | none =>
    exact relates_pure (h.lambda (h := ⟨generics, ps, a, false, shape.ownScope, false, variadic⟩)
      htypes ha hns)
  | some u =>
    have hu := h.written (hdeclared u rfl)
    have hbeq := h.beq hu ha
    simp only
    cases hs : u == a with
    | true =>
      rw [hs] at hbeq
      simp only [← hbeq, if_true]
      exact relates_pure (h.lambda (h := ⟨generics, ps, u, true, shape.ownScope, false, variadic⟩)
        htypes hu hns)
    | false =>
      rw [hs] at hbeq
      simp only [← hbeq, Bool.false_eq_true, if_false]
      exact relates_fail (h.resultMismatch hu ha)

theorem relates_short : C.Relates C.node (Form.short sub t) (Form.short sub t) := by
  unfold Form.short
  split
  · exact h.relates_noMatch
  next inner hu =>
  refine relates_bind (hsub _ (h.within ht (within_of_unwrap? hu))) fun n n' hn => ?_
  refine relates_bind (h.relates_typeOf hn) fun a a' ha => relates_pure ?_
  exact h.lambda (h := ⟨[], [], a, false, false, false, false⟩) (fun p hp => by cases hp) ha
    (.cons hn .nil)

theorem relates_memberParts :
    C.Relates (fun a b => C.node a.1 b.1 ∧ a.2 = b.2) (Form.memberParts sub t)
      (Form.memberParts sub t) := by
  cases hm : memberForm? t with
  | none =>
    rw [memberParts_of_none hm]
    exact h.relates_noMatch
  | some p =>
    rw [memberParts_of_some hm]
    refine relates_bind (hsub _ (h.within ht (within_of_memberForm? hm))) fun n n' hn => ?_
    exact relates_pure ⟨hn, rfl⟩

theorem relates_member : C.Relates C.node (Form.member sub t) (Form.member sub t) := by
  refine relates_bind (h.relates_memberParts hsub ht) ?_
  rintro ⟨p, m⟩ ⟨p', _⟩ ⟨hp, rfl⟩
  exact relates_pure (h.member hp)

theorem relates_giveBack : C.Relates C.node (Form.giveBack sub t) (Form.giveBack sub t) := by
  unfold Form.giveBack
  split
  · exact h.relates_noMatch
  · exact relates_pure h.giveBack
  · next value hr =>
    refine relates_bind (hsub _ (h.within ht (within_of_returnShape? hr))) fun v v' hv => ?_
    exact relates_pure (h.giveValue hv)

theorem relates_declare (constant : Bool) {x : Name} (hx : C.name x) {declared : Option SourceType}
    (hdeclared : ∀ u, declared = some u → SourceType.Canonical u) {value : Text}
    (hvalue : Within value t) (whole : Text) :
    C.Relates C.node (Form.declare sub whole constant x declared value)
      (Form.declare sub whole constant x declared value) := by
  have hvalue := hsub _ (h.within ht hvalue)
  have hend {v v' : Node} {a a' : SourceType} (hv : C.node v v') (ha : C.type a a') :
      C.Relates C.node
        (do
          report (.bound x a)
          modifyEnv (·.insert x a)
          return Node.declaration constant x declared a v)
        (do
          report (.bound x a')
          modifyEnv (·.insert x a')
          return Node.declaration constant x declared a' v') := by
    refine relates_bind (relates_report _ _) fun _ _ _ => ?_
    refine relates_bind (relates_modifyEnv fun _ _ henv => h.insert henv hx ha) fun _ _ _ => ?_
    exact relates_pure (h.declaration hdeclared ha hv)
  cases declared with
  | none =>
    refine relates_bind hvalue fun v v' hv => ?_
    refine relates_bind (h.relates_typeOf hv) fun a a' ha => ?_
    exact relates_bind (relates_pure ha) fun b b' hb => hend hv hb
  | some u =>
    have hu := h.written (hdeclared u rfl)
    refine relates_bind (relates_modifyEnv fun _ _ henv => h.insert henv hx hu) fun _ _ _ => ?_
    refine relates_bind hvalue fun v v' hv => ?_
    refine relates_bind (h.relates_typeOf hv) fun a a' ha => ?_
    have hbeq := h.beq hu ha
    simp only
    cases hs : u == a with
    | true =>
      rw [hs] at hbeq
      simp only [← hbeq, if_true]
      exact relates_bind (relates_pure hu) fun b b' hb => hend hv hb
    | false =>
      rw [hs] at hbeq
      simp only [← hbeq, Bool.false_eq_true, if_false]
      exact relates_bind (relates_fail (h.valueMismatch hu ha)) fun b b' hb => hend hv hb

theorem relates_declaration :
    C.Relates C.node (Form.declaration sub t) (Form.declaration sub t) := by
  unfold Form.declaration
  split
  · exact h.relates_noMatch
  next constant rest hd =>
  have hrest := within_of_declarationShape? hd
  obtain ⟨hx, hbehind⟩ := within_takeWhile_dropWhile rest
  simp only
  split
  · exact h.relates_reject _ _
  next hname =>
  have hname : isName (rest.takeWhile isNameChar) = true := by simpa using hname
  split
  · exact h.relates_reject _ _
  next before value hc =>
  have hvalue := (within_of_cutAssignment hc).2.trans ((within_trimStart _).trans hbehind)
  refine relates_bind (h.relates_read (rejects_writtenType _)
    fun declared hw => canonical_of_writtenType hw) ?_
  rintro declared _ ⟨rfl, hdeclared⟩
  refine relates_atomically (h.relates_declare hsub ht constant ?_ hdeclared
    (hvalue.trans hrest) t)
  exact ⟨isIdentifier_of_isName hname, h.within ht (hx.trans hrest)⟩

theorem relates_target : C.Relates C.Target (Form.target sub t) (Form.target sub t) := by
  have hstrip := h.within ht (within_stripParens t)
  unfold Form.target
  simp only
  split
  · next x hx =>
    obtain ⟨_, _, _, hname⟩ := eq_of_dereferenceShape? hx
    refine relates_pure (.dereference ⟨isIdentifier_of_isName hname, ?_⟩)
    exact h.within hstrip (within_of_dereferenceShape? hx)
  split
  · next hname => exact relates_pure (.var ⟨isIdentifier_of_isName hname, hstrip⟩)
  · refine h.relates_orReject _ _ (relates_bind (h.relates_memberParts hsub hstrip) ?_)
    rintro ⟨p, m⟩ ⟨p', _⟩ ⟨hp, rfl⟩
    exact relates_pure (.member m hp)

theorem relates_assignment :
    C.Relates C.node (Form.assignment sub t) (Form.assignment sub t) := by
  unfold Form.assignment
  split
  · exact h.relates_noMatch
  next before after hc =>
  obtain ⟨hbefore, hafter⟩ := within_of_cutAssignment hc
  refine relates_bind (h.relates_target hsub (h.within ht hbefore)) fun x x' hx => ?_
  refine relates_bind (hsub _ (h.within ht hafter)) fun v v' hv => ?_
  have hnode := h.assignment hx hv
  exact relates_bind (h.relates_typeOf hnode) fun _ _ _ => relates_pure hnode

omit hsub in
theorem relates_literal : C.Relates C.node (Form.literal t) (Form.literal t) := by
  refine relates_or (fun _ _ => h.noMatch_iff) (relates_or (fun _ _ => h.noMatch_iff) ?_ ?_) ?_
  · unfold Form.number
    split
    · exact h.relates_noMatch
    split
    · next x hx => exact relates_pure (h.number hx)
    · exact h.relates_reject _ _
  · unfold Form.string
    split
    · exact h.relates_noMatch
    · exact relates_pure (h.string _)
  · unfold Form.reference
    split
    · exact h.relates_noMatch
    next x hx =>
    split
    · next hname =>
      refine relates_pure (h.reference ⟨isIdentifier_of_isName hname, ?_⟩)
      exact h.within ht (within_of_referenceShape? hx)
    · exact h.relates_reject _ _

omit hsub in
theorem relates_var : C.Relates C.node (Form.var t) (Form.var t) := by
  unfold Form.var
  split
  · next hname => exact relates_pure (h.var ⟨isIdentifier_of_isName hname, ht⟩)
  · exact h.relates_noMatch

theorem relates_forms :
    C.Relates C.node (Parser.choice (forms sub) t) (Parser.choice (forms sub) t) := by
  have relates_or {p q : Parser Node} (hp : C.Relates C.node (p t) (p t))
      (hq : C.Relates C.node (q t) (q t)) : C.Relates C.node (p.or q t) (p.or q t) :=
    ParseM.relates_or (fun _ _ => h.noMatch_iff) hp hq
  refine relates_or (h.relates_inForm _ (h.relates_call hsub ht)) ?_
  refine relates_or (h.relates_literal ht) ?_
  refine relates_or (h.relates_inForm _ (h.relates_list hsub ht)) ?_
  refine relates_or (h.relates_inForm _ (h.relates_lambda hsub ht)) ?_
  refine relates_or (h.relates_inForm _ (h.relates_short hsub ht)) ?_
  refine relates_or (h.relates_inForm _ (h.relates_member hsub ht)) ?_
  refine relates_or (h.relates_inForm _ (h.relates_giveBack hsub ht)) ?_
  refine relates_or (h.relates_inForm _ (h.relates_declaration hsub ht)) ?_
  refine relates_or (h.relates_inForm _ (h.relates_assignment hsub ht)) ?_
  exact relates_or (h.relates_var ht) h.relates_noMatch

theorem relates_expressionWith :
    C.Relates C.node (expressionWith sub t) (expressionWith sub t) := by
  have hstrip := h.within ht (within_stripParens t)
  unfold expressionWith
  simp only
  split
  · exact h.relates_reject _ _
  refine relates_bind (h.relates_orReject _ _ (relates_nested (h.relates_forms hsub hstrip)))
    fun n n' hn => ?_
  exact relates_bind (relates_reportFormed _ _ _) fun _ _ _ => relates_pure hn

end

/-! ### Expressions -/

/-- Reading an expression respects the coupling. -/
theorem relates_expression {t : Text} (ht : C.text t) :
    C.Relates C.node (expression t) (expression t) := by
  induction t using expression.induct with
  | case1 t ih =>
    rw [expression]
    refine h.relates_expressionWith ?_ ht
    intro u hu
    split
    · next hlen => exact ih u hlen hu
    · exact h.relates_noMatch

end Lawful

end Coupling

end UnionTyping
