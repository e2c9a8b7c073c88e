/-
  UnionTyping/Proofs/Grammar/Preservation.lean
  ============================================
  **What reading keeps** — the types that a reading finds are those of the
  environment, those that the text writes, and what typing makes of them.  Types
  that are written are settled and not empty.  So a lasting condition on the
  environment is kept by every reading, whether it succeeds or fails, and holds
  of the types recorded in the nodes that are returned (`each_readProgram`).

  A form that fails may leave the environment that it has reached.  The condition
  is therefore carried through runs, not read off their answers (`Keeps`).  A run
  that keeps it is coupled with itself (`Coupling.keeping`), so that the way
  through the forms is that of two runs.
-/
import UnionTyping.Proofs.Grammar.TwoRuns
import UnionTyping.Proofs.Tree.TypeInvariants

namespace UnionTyping

open ParseM

namespace ParseM

/-- From an environment with `I` the run comes to one with `I`; its value has `Q`
    or its error has `E`. -/
def Keeps {α : Type} (I : TypeEnv → Prop) (E : ParseError → Prop) (Q : α → Prop) (x : ParseM α) :
    Prop := ∀ s, I s.env → I (x s).state.env ∧ Ensures E Q (x s).result

end ParseM

/-! ### Errors -/

/-- An empty callee is an error only where types may be empty. -/
def ParseError.Admitted (p : List SourceEntry → Prop) (e : ParseError) : Prop :=
  ∀ error, e = .type error → error.Admitted p

/-- The run keeps `p` as a condition on the types of the environment. -/
abbrev KeepsTypes {α : Type} (p : List SourceEntry → Prop) (Q : α → Prop) (x : ParseM α) : Prop :=
  Keeps (·.Each p) (·.Admitted p) Q x

section

variable {p : List SourceEntry → Prop}

theorem admitted_reject (fragment : Text) (fault : Fault) :
    (ParseError.reject fragment fault).Admitted p := fun error h => by cases h

theorem admitted_type {e : TypeError} (h : e.Admitted p) : (ParseError.type e).Admitted p := by
  intro error he
  obtain rfl := ParseError.type.inj he
  exact h

theorem admitted_inForm (form : Text) (e : ParseError) (h : e.Admitted p) :
    (e.inForm form).Admitted p := by
  intro error he
  apply h
  rcases e with _ | ⟨fragment, fault, _ | form'⟩ | e
  · cases he
  · cases he
  · cases he
  · exact he

/-! ### The coupling of a run with itself -/

/-- Both runs are the same and keep `p`. -/
def Coupling.keeping (p : List SourceEntry → Prop) : Coupling where
  text _ := True
  env env env' := env.Each p ∧ env = env'
  type t u := t.Each p ∧ t = u
  node n m := n.Each p ∧ n = m
  error e e' := e.Admitted p ∧ e = e'

theorem each_of_written (hp : Lasting p) {t : SourceType} (h : SourceType.Canonical t) : t.Each p :=
  (each_of_canonical h).imp fun _ hes => hp.of_settled hes.1 hes.2

theorem each_of_nil {n : Node} (h : n.types = []) : n.Each p := by
  intro t ht
  rw [h] at ht
  cases ht

theorem nodes_keeping {ns ms : List Node} (h : List.Forall₂ (Coupling.keeping p).node ns ms) :
    (∀ t ∈ Node.typesAll ns, t.Each p) ∧ ns = ms := by
  obtain ⟨hns, heq⟩ := (List.forall₂_and_left ns ms).1 h
  rw [List.forall₂_eq_eq_eq] at heq
  exact ⟨Node.each_all_iff.2 hns, heq⟩

theorem target_keeping {t u : Target} (h : (Coupling.keeping p).Target t u) :
    (∀ a ∈ t.types, a.Each p) ∧ t = u := by
  cases h with
  | var | dereference => exact ⟨fun a ha => (by cases ha), rfl⟩
  | member m hn =>
    obtain ⟨hn, rfl⟩ := hn
    exact ⟨hn, rfl⟩

theorem lawful_keeping (hp : Lasting p) : (Coupling.keeping p).Lawful where
  within _ _ := trivial
  written h := ⟨each_of_written hp h, rfl⟩
  beq := by
    rintro a _ b _ ⟨_, rfl⟩ ⟨_, rfl⟩
    rfl
  insert := by
    rintro env _ x t _ ⟨henv, rfl⟩ _ ⟨ht, rfl⟩
    exact ⟨henv.insert x ht, rfl⟩
  typed := by
    rintro env _ n _ ⟨henv, rfl⟩ ⟨hn, rfl⟩
    have htype := each_typeOf hp henv n hn
    cases hr : (typeOf env n).result with
    | ok t => exact ⟨htype.of_ok hr, rfl⟩
    | error e => exact ⟨admitted_type (htype.of_error hr), rfl⟩
  number _ := ⟨each_of_nil rfl, rfl⟩
  string _ := ⟨each_of_nil rfl, rfl⟩
  reference _ := ⟨each_of_nil rfl, rfl⟩
  list h := by
    obtain ⟨hes, rfl⟩ := nodes_keeping h
    exact ⟨hes, rfl⟩
  lambda := by
    rintro head t _ ns ms hparams ⟨ht, rfl⟩ h
    obtain ⟨hns, rfl⟩ := nodes_keeping h
    have hhead : ∀ u ∈ ({ head with result := t } : LambdaHead).types, u.Each p :=
      List.forall_mem_cons.2 ⟨ht, List.forall_mem_map.2 fun q hq => each_of_written hp (hparams q hq)⟩
    exact ⟨List.forall_mem_append.2 ⟨hhead, hns⟩, rfl⟩
  var _ := ⟨each_of_nil rfl, rfl⟩
  call := by
    rintro f _ as bs ts ⟨hf, rfl⟩ hts h
    obtain ⟨has, rfl⟩ := nodes_keeping h
    have hgenerics : ∀ t ∈ ts, t.Each p := fun t ht => each_of_written hp (hts t ht)
    exact ⟨List.forall_mem_append.2 ⟨List.forall_mem_append.2 ⟨hf, hgenerics⟩, has⟩, rfl⟩
  member := by
    rintro n _ m ⟨hn, rfl⟩
    exact ⟨hn, rfl⟩
  declaration := by
    rintro c x declared t _ v _ hdeclared ⟨ht, rfl⟩ ⟨hv, rfl⟩
    have hwritten : ∀ u ∈ declared.toList, u.Each p :=
      fun u hu => each_of_written hp (hdeclared u (Option.mem_toList.1 hu))
    exact ⟨List.forall_mem_append.2 ⟨hwritten, List.forall_mem_cons.2 ⟨ht, hv⟩⟩, rfl⟩
  assignment := by
    rintro t u v _ htarget ⟨hv, rfl⟩
    obtain ⟨ht, rfl⟩ := target_keeping htarget
    exact ⟨List.forall_mem_append.2 ⟨ht, hv⟩, rfl⟩
  giveBack := ⟨each_of_nil rfl, rfl⟩
  giveValue := by
    rintro v _ ⟨hv, rfl⟩
    exact ⟨hv, rfl⟩
  noMatch := ⟨fun error h => (by cases h), rfl⟩
  noMatch_iff := by
    rintro e _ ⟨_, rfl⟩
    exact Iff.rfl
  reject fragment fault := ⟨admitted_reject fragment fault, rfl⟩
  resultMismatch := by
    rintro fragment a _ b _ ⟨_, rfl⟩ ⟨_, rfl⟩
    exact ⟨admitted_reject _ _, rfl⟩
  valueMismatch := by
    rintro fragment x a _ b _ ⟨_, rfl⟩ ⟨_, rfl⟩
    exact ⟨admitted_reject _ _, rfl⟩
  inForm := by
    rintro e _ form ⟨he, rfl⟩
    exact ⟨admitted_inForm form e he, rfl⟩

end

/-! ### Readings -/

section

variable {p : List SourceEntry → Prop} (hp : Lasting p) {env : TypeEnv}
include hp

theorem keeps_expression (t : Text) : KeepsTypes p (·.Each p) (expression t) := by
  intro s hs
  obtain ⟨⟨hafter, _⟩, hresult⟩ :=
    (lawful_keeping hp).relates_expression (t := t) trivial s s ⟨hs, rfl⟩
  refine ⟨hafter, ?_⟩
  cases hr : (expression t s).result with
  | ok n =>
    rw [hr] at hresult
    exact hresult.1
  | error e =>
    rw [hr] at hresult
    exact hresult.1

theorem each_read (t : Text) (henv : env.Each p) :
    (read t env).env.Each p ∧ Ensures (·.Admitted p) (·.Each p) (read t env).result := by
  obtain ⟨hi, hq⟩ := keeps_expression hp t { env } henv
  refine ⟨hi, ?_⟩
  show Ensures (·.Admitted p) (·.Each p) (settle t (expression t { env }).result).result
  cases hr : (expression t { env }).result with
  | ok n => exact hq.of_ok hr
  | error e =>
    cases e with
    | noMatch => exact each_of_nil rfl
    | invalid => exact each_of_nil rfl
    | type e => exact hq.of_error hr e rfl

theorem each_readAll (ts : List Text) (henv : env.Each p) :
    (readAll env ts).env.Each p
      ∧ Ensures (·.Admitted p) (fun ns => ∀ n ∈ ns, n.Each p) (readAll env ts).result := by
  induction ts generalizing env with
  | nil => exact ⟨henv, fun n hn => by cases hn⟩
  | cons t ts ih =>
    obtain ⟨hfirst, hq⟩ := each_read hp t henv
    unfold readAll
    simp only
    cases hr : (read t env).result with
    | error e => exact ⟨hfirst, hq.of_error hr⟩
    | ok n =>
      obtain ⟨hothers, hqs⟩ := ih hfirst
      refine ⟨hothers, ?_⟩
      cases hrs : (readAll (read t env).env ts).result with
      | error e => exact hqs.of_error hrs
      | ok ns => exact List.forall_mem_cons.2 ⟨hq.of_ok hr, hqs.of_ok hrs⟩

theorem each_readProgram (t : Text) (henv : env.Each p) :
    (readProgram t env).env.Each p
      ∧ Ensures (·.Admitted p) (fun ns => ∀ n ∈ ns, n.Each p) (readProgram t env).result :=
  each_readAll hp (statementTexts t) henv

end

/-! ### Empty types -/

/-- From an environment without empty unions, a program leaves none there, whether
    it succeeds or fails.  The returned nodes record none, and what type they have
    in that environment has none.  That a callee has no entries is no error of the
    program nor of typing its nodes. -/
theorem no_empty_types (t : Text) (env : TypeEnv) (henv : env.Each (· ≠ [])) :
    (readProgram t env).env.Each (· ≠ [])
      ∧ (∀ node, (readProgram t env).result ≠ .error (.emptyCallee node))
      ∧ ∀ ns, (readProgram t env).result = .ok ns → ∀ n ∈ ns,
        (∀ type ∈ n.types, type.Each (· ≠ []))
          ∧ (∀ type, (typeOf (readProgram t env).env n).result = .ok type → type.Each (· ≠ []))
          ∧ ∀ node, (typeOf (readProgram t env).env n).result ≠ .error (.emptyCallee node) := by
  obtain ⟨hafter, hresult⟩ := each_readProgram lasting_ne_nil t henv
  refine ⟨hafter, fun node h => hresult.of_error h node rfl rfl, ?_⟩
  intro ns hns n hn
  have hnode : n.Each (· ≠ []) := hresult.of_ok hns n hn
  have htype := each_typeOf lasting_ne_nil hafter n hnode
  exact ⟨hnode, fun type h => htype.of_ok h, fun node h => htype.of_error h node rfl rfl⟩

/-- An empty list, a call that solves a generic and a member of the result. -/
theorem no_empty_types_initial :
    TypeEnv.initial.Each (· ≠ [])
      ∧ ∃ ns, (readProgram "var xs = \x7b\x7d; identity(xs); identity(xs).length".toList
          .initial).result = .ok ns ∧ ns.length = 3
        ∧ (∀ n ∈ ns, ∀ type ∈ n.types, type.Each (· ≠ []))
        ∧ ∀ n ∈ ns, ∀ node, (typeOf (readProgram
          "var xs = \x7b\x7d; identity(xs); identity(xs).length".toList .initial).env n).result
            ≠ .error (.emptyCallee node) := by
  have hlen : (readProgram "var xs = \x7b\x7d; identity(xs); identity(xs).length".toList
      .initial).result.toOption.map List.length = some 3 := by decide +kernel
  have h := (no_empty_types "var xs = \x7b\x7d; identity(xs); identity(xs).length".toList _
    (TypeEnv.each_initial lasting_ne_nil)).2.2
  cases hr : (readProgram "var xs = \x7b\x7d; identity(xs); identity(xs).length".toList
      .initial).result with
  | error e =>
    rw [hr] at hlen
    cases hlen
  | ok ns =>
    rw [hr] at hlen
    refine ⟨TypeEnv.each_initial lasting_ne_nil, ns, rfl, Option.some.inj hlen, ?_, ?_⟩
    · exact fun n hn => (h ns hr n hn).1
    · exact fun n hn => (h ns hr n hn).2.2

end UnionTyping
