/-
  UnionTyping/Proofs/Grammar/RecordedTypes.lean
  =============================================
  **What a node records is the type of its body** — a lambda records the type of
  its result and a declaration the type of its value while they are read, in an
  environment that goes on changing.  Nothing that is bound later disagrees: in
  the environment in which the form starts, extended by what its pieces bind, the
  body has the recorded type.

  `Node.starts` lists the nodes of a tree with the environments in which they
  start.  Every node of a tree that was read was read itself, from a piece of the
  text and in that environment (`readable_of_mem_starts`), so that what it records is
  a matter of one step of reading.
-/
import UnionTyping.Proofs.Grammar.Effects
import UnionTyping.Proofs.Types.Alike

namespace UnionTyping

open Text

/-! ### Where the nodes of a tree start -/

mutual

/-- The nodes inside a node that starts in `env`, each with the environment in
    which it starts: there is bound what the forms around it and the nodes before
    it bind. -/
def Node.inside (env : TypeEnv) : Node → List (TypeEnv × Node)
  | .list es => Node.startsAll env es
  | .lambda h body => Node.startsAll (env.bindParameters h.params) body
  | .call f as _ => (env, f) :: (Node.inside env f ++ Node.startsAll (env.bind f.bindings) as)
  | .member p _ => (env, p) :: Node.inside env p
  | .declaration _ x declared _ value =>
    (declared.elim env (env.insert x), value)
      :: Node.inside (declared.elim env (env.insert x)) value
  | .assignment t value =>
    Target.inside env t
      ++ (env.bind t.bindings, value) :: Node.inside (env.bind t.bindings) value
  | .ret (some value) => (env, value) :: Node.inside env value
  | _ => []

def Target.inside (env : TypeEnv) : Target → List (TypeEnv × Node)
  | .member p _ => (env, p) :: Node.inside env p
  | _ => []

def Node.startsAll (env : TypeEnv) : List Node → List (TypeEnv × Node)
  | [] => []
  | n :: ns => (env, n) :: (Node.inside env n ++ Node.startsAll (env.bind n.bindings) ns)

end

/-- The nodes of a tree that starts in `env`, itself among them. -/
def Node.starts (env : TypeEnv) (n : Node) : List (TypeEnv × Node) := (env, n) :: n.inside env

/-! ### Every node of a tree is read -/

/-- The node is read from some text. -/
def Readable (p : TypeEnv × Node) : Prop := ∃ u e, Reads u p.1 p.2 e

section

variable {t : Text} {env env' : TypeEnv} {n : Node}

/-- A node that was read, with all the nodes inside it. -/
theorem readable_starts (h : Reads t env n env' ∧ ∀ p ∈ n.inside env, Readable p) :
    ∀ p ∈ n.starts env, Readable p :=
  List.forall_mem_cons.2 ⟨⟨t, env', h.1⟩, h.2⟩

theorem readable_startsAll {ts : List Text} {ns : List Node}
    (h : Chain (fun u e m e' => Reads u e m e' ∧ ∀ p ∈ m.inside e, Readable p) ts env ns env') :
    ∀ p ∈ Node.startsAll env ns, Readable p := by
  induction h with
  | nil => exact fun p hp => by cases hp
  | cons hn _ ih =>
    rw [env_of_reads hn.1] at ih
    exact List.forall_mem_append.2 ⟨readable_starts hn, ih⟩

theorem readable_of_mem_starts (h : Reads t env n env') : ∀ p ∈ n.starts env, Readable p := by
  refine readable_starts ⟨h, ?_⟩
  refine reads_induction (P := fun _ env n _ => ∀ p ∈ n.inside env, Readable p) ?_ h
  intro t env k n env' _ hf
  cases hf with
  | number | string | reference | giveBack | var => exact fun p hp => by cases hp
  | call hf _ ha =>
    have hargs := readable_startsAll ha
    rw [env_of_reads hf.1] at hargs
    exact List.forall_mem_append.2 ⟨readable_starts hf, hargs⟩
  | list he => exact readable_startsAll he
  | lambda _ _ _ _ hc => exact readable_startsAll hc
  | short hb => exact List.forall_mem_append.2 ⟨readable_starts hb, fun p hp => by cases hp⟩
  | member hp => exact readable_starts hp
  | giveValue hv => exact readable_starts hv
  | declaration _ _ _ hv => exact readable_starts hv
  | assignment htarget hv =>
    have hvalue := readable_starts hv
    refine List.forall_mem_append.2 ?_
    cases htarget with
    | dereference | var => exact ⟨fun p hp => (by cases hp), hvalue⟩
    | member _ _ _ hp =>
      rw [env_of_reads hp.1] at hvalue
      exact ⟨readable_starts hp, hvalue⟩

/-! ### What is recorded -/

/-- A declared type that equals the type found is equal to it from either side. -/
theorem getD_same {declared : Option SourceType} {inferred : SourceType}
    (hc : ∀ type, declared = some type → SourceType.Canonical type)
    (hs : ∀ type, declared = some type → (type == inferred) = true) :
    (inferred == declared.getD inferred) = true := by
  cases declared with
  | none => exact UnionType.beq_refl inferred
  | some type => exact UnionType.same_symm (normal_of_canonical (hc type rfl)) (hs type rfl)

theorem recorded_of_lambda {head : LambdaHead} {body : List Node}
    (h : Readable (env, .lambda head body)) :
    ∃ type, (typeOfBody ((env.bindParameters head.params).bind (Node.bindingsAll body)) body).result
        = .ok type ∧ (type == head.result) = true := by
  obtain ⟨u, e, h⟩ := h
  obtain ⟨k, _, hf⟩ := reads_iff.1 h
  cases hf with
  | lambda _ _ hd _ hc ht hs =>
    rw [hc.env_eq_bind fun _ _ _ _ => env_of_reads] at ht
    exact ⟨_, ht, getD_same (canonical_of_declared hd) hs⟩
  | short hb ht =>
    rw [env_of_reads hb] at ht
    refine ⟨_, ?_, UnionType.beq_refl _⟩
    rw [Node.bindingsAll, Node.bindingsAll, List.append_nil]
    exact ht

theorem recorded_of_declaration {constant : Bool} {x : Name} {declared : Option SourceType}
    {type : SourceType} {value : Node}
    (h : Readable (env, .declaration constant x declared type value)) :
    ∃ inferred,
      (typeOf ((declared.elim env (env.insert x)).bind value.bindings) value).result = .ok inferred
        ∧ (inferred == type) = true ∧ ∀ written, declared = some written → (type == written) = true := by
  obtain ⟨u, e, h⟩ := h
  obtain ⟨k, _, hf⟩ := reads_iff.1 h
  cases hf with
  | declaration _ _ hd hv ht hs =>
    rw [env_of_reads hv] at ht
    refine ⟨_, ht, getD_same (canonical_of_writtenType hd) hs, ?_⟩
    rintro written rfl
    exact UnionType.beq_refl written

/-- Wherever a lambda or a declaration stands in a tree that was read, its body or
    value has the type that it records, in the environment in which it starts with
    the parameters, or the declared name, and then the bindings of the body. -/
theorem recorded_types_of_valid (t : Text) (env : TypeEnv) (n : Node)
    (h : (read t env).result = .ok n) (hv : n.isInvalid = false) :
    (∀ e head body, (e, Node.lambda head body) ∈ n.starts env →
      ∃ type, (typeOfBody ((e.bindParameters head.params).bind (Node.bindingsAll body)) body).result
          = .ok type ∧ (type == head.result) = true)
      ∧ ∀ e constant x declared type value,
        (e, Node.declaration constant x declared type value) ∈ n.starts env →
        ∃ inferred,
          (typeOf ((declared.elim e (e.insert x)).bind value.bindings) value).result = .ok inferred
            ∧ (inferred == type) = true
            ∧ ∀ written, declared = some written → (type == written) = true := by
  have hread := readable_of_mem_starts (reads_of_read h hv)
  constructor
  · intro e head body hm
    exact recorded_of_lambda (hread _ hm)
  · intro e constant x declared type value hm
    exact recorded_of_declaration (hread _ hm)

/-- A short lambda around the declaration of a function that calls itself: the
    inner lambda starts with the declared name bound. -/
theorem recorded_types_of_valid_recursive :
    ∃ n, (read "[var f:(number)!=>number = (y:number)=>\x7bf(y)\x7d]".toList .empty).result = .ok n
      ∧ n.isInvalid = false
      ∧ (n.starts .empty).map (fun p => (p.1.bindings.pairs.map Prod.fst, p.2.kind))
        = [([], "lambda".toList), ([], "declaration".toList), ([['f']], "lambda".toList),
          ([['y'], ['f']], "call".toList), ([['y'], ['f']], "variable".toList),
          ([['y'], ['f']], "variable".toList)]
      ∧ (∀ e head body, (e, Node.lambda head body) ∈ n.starts .empty →
        ∃ type, (typeOfBody ((e.bindParameters head.params).bind (Node.bindingsAll body)) body).result
            = .ok type ∧ (type == head.result) = true)
      ∧ ∀ e constant x declared type value,
        (e, Node.declaration constant x declared type value) ∈ n.starts .empty →
        ∃ inferred,
          (typeOf ((declared.elim e (e.insert x)).bind value.bindings) value).result = .ok inferred
            ∧ (inferred == type) = true
            ∧ ∀ written, declared = some written → (type == written) = true := by
  have h : (read "[var f:(number)!=>number = (y:number)=>\x7bf(y)\x7d]".toList .empty).node?.map
      (fun n => (n.starts .empty).map fun p => (p.1.bindings.pairs.map Prod.fst, p.2.kind))
        = some [([], "lambda".toList), ([], "declaration".toList), ([['f']], "lambda".toList),
          ([['y'], ['f']], "call".toList), ([['y'], ['f']], "variable".toList),
          ([['y'], ['f']], "variable".toList)] := by decide +kernel
  obtain ⟨n, hn, hstarts⟩ := Option.map_eq_some_iff.1 h
  obtain ⟨hr, hv⟩ := Reading.node?_eq_some_iff.1 hn
  exact ⟨n, hr, hv, hstarts, recorded_types_of_valid _ .empty n hr hv⟩

end

end UnionTyping
