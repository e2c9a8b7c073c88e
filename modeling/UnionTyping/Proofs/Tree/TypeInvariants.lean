/-
  UnionTyping/Proofs/Tree/TypeInvariants.lean
  ===========================================
  **What typing keeps** — the types recorded in a node (`Node.types`) and those of
  an environment are the inputs of typing.  A lasting condition on all of them
  holds of the type that is found (`each_typeOf`): a type is looked up, or written
  in the node, or made of such types by unions, by solving generics and by
  substituting the solutions.

  The empty type is the start of every union.  It gets out of none: an empty
  list literal is a list of any, a callee without entries is an error, so that
  there is a result to unite for each entry of any other callee, and a member
  without a type is an error again.
-/
import UnionTyping.Proofs.Types.Invariants
import UnionTyping.Tree.Typing

namespace UnionTyping

open UnionType Typing

/-! ### The types of nodes and environments -/

/-- The types of a lambda without its body. -/
def LambdaHead.types (h : LambdaHead) : List SourceType := h.result :: h.params.map (·.type)

mutual

/-- The types that are recorded in a node, at every depth. -/
def Node.types : Node → List SourceType
  | .list es => Node.typesAll es
  | .lambda h body => h.types ++ Node.typesAll body
  | .call f as gs => Node.types f ++ gs ++ Node.typesAll as
  | .member p _ => Node.types p
  | .declaration _ _ declared type value => declared.toList ++ type :: Node.types value
  | .assignment t value => Target.types t ++ Node.types value
  | .ret (some value) => Node.types value
  | _ => []

def Target.types : Target → List SourceType
  | .member p _ => Node.types p
  | _ => []

def Node.typesAll : List Node → List SourceType
  | [] => []
  | n :: ns => Node.types n ++ Node.typesAll ns

end

/-- `p` holds of the types that are recorded in the node. -/
def Node.Each (p : List SourceEntry → Prop) (n : Node) : Prop := ∀ t ∈ n.types, t.Each p

theorem Node.each_all_iff {p : List SourceEntry → Prop} {ns : List Node} :
    (∀ t ∈ Node.typesAll ns, t.Each p) ↔ ∀ n ∈ ns, n.Each p := by
  induction ns with
  | nil => simp [Node.typesAll]
  | cons n ns ih => rw [Node.typesAll, List.forall_mem_append, ih, List.forall_mem_cons, Node.Each]

/-- `p` holds of the types of the variables and of the members, at every depth. -/
structure TypeEnv.Each (p : List SourceEntry → Prop) (env : TypeEnv) : Prop where
  lookup : ∀ x t, env.lookup? x = some t → t.Each p
  lookupMember : ∀ owner m t, env.lookupMember? owner m = some t → t.Each p

variable {p : List SourceEntry → Prop} {env : TypeEnv}

theorem TypeEnv.Each.insert (h : env.Each p) {t : SourceType} (x : Name) (ht : t.Each p) :
    (env.insert x t).Each p :=
  ⟨Table.forall_insert h.lookup x ht, h.lookupMember⟩

/-! ### The cases of typing -/

theorem each_bare (hp : Lasting p) (n : Name) : (UnionType.bare n).Each p :=
  .single_of_lasting hp fun a ha => by cases ha

theorem each_named (hp : Lasting p) {n : Name} {t : SourceType} (ht : t.Each p) :
    (UnionType.named n [t]).Each p :=
  .single_of_lasting hp (List.forall_mem_singleton.2 ht)

/-- The types of the language's own variables and members are built like written
    ones. -/
theorem TypeEnv.each_initial (hp : Lasting p) : TypeEnv.initial.Each p := by
  have hfunction {traits : FunctionTraits} {params : List SourceType} {result : SourceType}
      (hparams : ∀ t ∈ params, t.Each p) (hresult : result.Each p) :
      (UnionType.single (.function traits params result)).Each p :=
    .single_of_lasting hp (List.forall_mem_cons.2 ⟨hresult, hparams⟩)
  have hbare (n : Name) := each_bare hp n
  have hone {t : SourceType} (ht : t.Each p) : ∀ u ∈ [t], u.Each p := List.forall_mem_singleton.2 ht
  have htwo {t : SourceType} (ht : t.Each p) : ∀ u ∈ [t, t], u.Each p :=
    List.forall_mem_cons.2 ⟨ht, hone ht⟩
  refine ⟨Table.forall_ofList ?_, fun owner m => Table.forall_ofList ?_ (owner, m)⟩
  · simp only [builtins, List.forall_mem_cons]
    refine ⟨?_, ?_, ?_, ?_, ?_, ?_, ?_, ?_, fun q hq => by cases hq⟩
    · exact hfunction (htwo (hbare _)) (hbare _)
    · exact hfunction (htwo (hbare _)) (hbare _)
    · exact hfunction (htwo (hbare _)) (hbare _)
    · exact hfunction (htwo (hbare _)) (hbare _)
    · exact hfunction (htwo (hbare _)) (hbare _)
    · exact hfunction (hone (hbare _)) (hbare _)
    · exact hfunction (hone (hbare _)) (hbare _)
    · exact hfunction (hone (.union hp.toKept (each_named hp (hbare _)) (hbare _))) (hbare _)
  · simp only [List.forall_mem_cons]
    exact ⟨hbare _, hbare _, fun q hq => by cases hq⟩

theorem each_listOf (hp : Lasting p) {ts : List SourceType} (hts : ∀ t ∈ ts, t.Each p) :
    (listOf ts).Each p := by
  unfold listOf
  split
  · exact each_named hp (each_bare hp _)
  · next hne => exact each_named hp (.unionAll hp.toKept (fun h => absurd h hne) hts)

theorem each_lambda (hp : Lasting p) {h : LambdaHead} (ht : ∀ t ∈ h.types, t.Each p) :
    h.type.Each p := .single_of_lasting hp ht

theorem each_ofVariable (henv : env.Each p) (n : Name) :
    Ensures (·.Admitted p) (·.Each p) (ofVariable env n).result := by
  unfold ofVariable
  split
  · next t ht => exact henv.lookup n t ht
  · exact fun node h => by cases h

theorem each_dereferenced (hp : Lasting p) (henv : env.Each p) (n : Name) (node : Text) :
    Ensures (·.Admitted p) (·.Each p) (dereferenced env n node).result := by
  unfold dereferenced
  rw [Traced.result_bind]
  refine ensures_bind (each_ofVariable henv n) ?_
  rintro ⟨es⟩ ht
  split
  · exact each_bare hp _
  split
  · next h target hs =>
    have hes : es = [.named h [target]] := by
      rcases es with _ | ⟨e, _ | ⟨e', es⟩⟩
      · cases hs
      · exact congrArg (fun e => [e]) (Option.some.inj hs)
      · cases hs
    subst hes
    split
    · exact (each_of_iff.1 ht).2 _ (List.mem_singleton_self _) _ (List.mem_singleton_self _)
    · exact fun node h => by cases h
  · exact fun node h => by cases h
  · exact fun node h => by cases h

theorem each_memberType (hp : Lasting p) (henv : env.Each p) (parent : SourceType) (n : Name)
    (node : Text) : Ensures (·.Admitted p) (·.Each p) (memberType env parent n node).result := by
  unfold memberType
  split
  · exact each_bare hp _
  simp only [Traced.result_bind, Traced.result_mapM]
  refine ensures_bind (ensures_mapM (R := (·.Each p)) fun e _ => ?_) fun ts hts => ?_
  · split
    · next t ht => exact henv.lookupMember _ _ t ht
    · exact fun node h => by cases h
  · split
    · exact fun node h => by cases h
    · next hbase =>
      refine (Each.unionAll_or_base hp.toKept fun t ht => Or.inr (hts t ht)).resolve_left ?_
      exact fun h => hbase (by rw [h]; rfl)

/-! ### Calls -/

theorem each_ofBindings {names : List Name} {types : List SourceType}
    (htypes : ∀ t ∈ types, t.Each p) :
    ∀ n t, (Substitution.ofBindings names types).find? n = some t → t.Each p :=
  Table.forall_ofList fun q hq => htypes q.2 (List.of_mem_zip hq).2

theorem each_callEntry (hp : Lasting p) {callee : SourceType} {generics arguments : List SourceType}
    (hgenerics : ∀ t ∈ generics, t.Each p) (harguments : ∀ t ∈ arguments, t.Each p) (node : Text)
    {e : SourceEntry} (he : ∀ a ∈ e.parts, a.Each p) :
    Ensures (·.Admitted p) (·.Each p) (callEntry callee generics arguments node e).result := by
  cases e with
  | named => exact fun node h => by cases h
  | function t params result =>
    have hresult : result.Each p := he result (List.mem_cons_self ..)
    have happly {solution : List SourceType} (hs : ∀ u ∈ solution, u.Each p) :
        ((Substitution.ofBindings t.generics solution).apply result).Each p :=
      Substitution.each_apply hp.toKept (each_ofBindings hs) hresult
    rw [callEntry]
    split
    · exact fun node h => by cases h
    split
    · exact hresult
    split
    · rw [Traced.result_bind]
      refine ensures_bind (Generics.each_assign hp.toKept harguments (Or.inl rfl)) ?_
      exact fun solution hs => happly hs
    · exact happly hgenerics

/-- A callee with an entry has a result for it, so that something is united. -/
theorem each_callResult (hp : Lasting p) {callee : SourceType}
    {generics arguments : List SourceType} (hcallee : callee.Each p) (hne : callee.isBase = false)
    (hgenerics : ∀ t ∈ generics, t.Each p) (harguments : ∀ t ∈ arguments, t.Each p) (node : Text) :
    Ensures (·.Admitted p) (·.Each p) (callResult callee generics arguments node).result := by
  obtain ⟨es⟩ := callee
  have hparts := (each_of_iff.1 hcallee).2
  unfold callResult
  rw [Traced.result_bind, Traced.result_mapM]
  have hresults : Ensures (·.Admitted p) (fun ts => (∀ t ∈ ts, t.Each p) ∧ ts ≠ [])
      (es.mapM fun e => (callEntry (of es) generics arguments node e).result) := by
    refine (ensures_mapM fun e he =>
      each_callEntry hp hgenerics harguments node (hparts e he)).imp ?_
    intro ts hts h
    refine ⟨h, ?_⟩
    rintro rfl
    have hlen := (mapM_eq_ok_iff.1 hts).length_eq
    rw [List.eq_nil_of_length_eq_zero hlen] at hne
    cases hne
  refine ensures_bind hresults fun ts hts => ?_
  exact Each.unionAll hp.toKept (fun h => absurd h hts.2) hts.1

/-! ### Nodes -/

mutual

/-- The type of a node has what the recorded types and the environment have. -/
theorem each_typeOf (hp : Lasting p) (henv : env.Each p) :
    ∀ n : Node, n.Each p →
      Ensures (·.Admitted p) (·.Each p) (typeOf env n).result
  | .number _, _ => by
    rw [typeOf]
    exact each_bare hp _
  | .string _, _ => by
    rw [typeOf]
    exact each_bare hp _
  | .reference n, _ => by
    rw [typeOf, Traced.result_bind]
    exact ensures_bind (each_ofVariable henv n) fun t ht => each_named hp ht
  | .list es, h => by
    rw [typeOf, Traced.result_bind]
    exact ensures_bind (each_typesOf hp henv es h) fun ts hts => each_listOf hp hts
  | .lambda head body, h => by
    rw [typeOf]
    exact each_lambda hp fun t ht => h t (List.mem_append_left _ ht)
  | .var n, _ => by
    rw [typeOf]
    exact each_ofVariable henv n
  | .call f as gs, h => by
    rw [Node.Each, Node.types, List.forall_mem_append, List.forall_mem_append] at h
    obtain ⟨⟨hf, hgs⟩, has⟩ := h
    rw [typeOf, Traced.result_bind]
    refine ensures_bind (each_typeOf hp henv f hf) fun callee hcallee => ?_
    simp only
    split
    · exact each_bare hp _
    split
    · next hbase =>
      intro node _
      obtain ⟨es⟩ := callee
      obtain rfl : es = [] := List.isEmpty_iff.1 hbase
      exact (each_of_iff.1 hcallee).1
    next hbase =>
    have hresult {arguments : List SourceType} (hargs : ∀ t ∈ arguments, t.Each p) :=
      each_callResult hp hcallee (Bool.eq_false_iff.2 hbase) hgs hargs (Node.call f as gs).text
    split
    · rw [Traced.result_bind]
      exact ensures_bind (each_typesOf hp henv as has) fun arguments hargs => hresult hargs
    · exact hresult fun t ht => by cases ht
  | .member q n, h => by
    rw [typeOf, Traced.result_bind]
    exact ensures_bind (each_typeOf hp henv q h) fun parent _ => each_memberType hp henv parent n _
  | .declaration _ _ declared t v, h => by
    rw [typeOf]
    exact h t (List.mem_append_right _ (List.mem_cons_self ..))
  | .assignment t v, h => by
    rw [Node.Each, Node.types, List.forall_mem_append] at h
    rw [typeOf, Traced.result_bind]
    refine ensures_bind (each_typeOfTarget hp henv _ t h.1) fun _ _ => ?_
    exact each_typeOf hp henv v h.2
  | .ret none, _ => by
    rw [typeOf]
    exact each_bare hp _
  | .ret (some v), h => by
    rw [typeOf]
    exact each_typeOf hp henv v h
  | .invalid _ _ _, _ => by
    rw [typeOf]
    exact fun node h => by cases h

theorem each_typeOfTarget (hp : Lasting p) (henv : env.Each p) (node : Text) :
    ∀ t : Target, (∀ u ∈ t.types, u.Each p) →
      Ensures (·.Admitted p) (·.Each p) (typeOfTarget env node t).result
  | .var n, _ => by
    rw [typeOfTarget]
    exact each_ofVariable henv n
  | .dereference n, _ => by
    rw [typeOfTarget]
    exact each_dereferenced hp henv n node
  | .member q n, h => by
    rw [typeOfTarget, Traced.result_bind]
    exact ensures_bind (each_typeOf hp henv q h) fun parent _ => each_memberType hp henv parent n _

theorem each_typesOf (hp : Lasting p) (henv : env.Each p) :
    ∀ ns : List Node, (∀ t ∈ Node.typesAll ns, t.Each p) →
      Ensures (·.Admitted p) (fun ts => ∀ t ∈ ts, t.Each p) (typesOf env ns).result
  | [], _ => by
    rw [typesOf]
    exact fun t ht => by cases ht
  | n :: ns, h => by
    rw [Node.typesAll, List.forall_mem_append] at h
    rw [typesOf, Traced.result_bind]
    refine ensures_bind (each_typeOf hp henv n h.1) fun t ht => ?_
    rw [Traced.result_bind]
    refine ensures_bind (each_typesOf hp henv ns h.2) fun ts hts => ?_
    exact List.forall_mem_cons.2 ⟨ht, hts⟩

end

end UnionTyping
