/-
  UnionTyping/Proofs/Grammar/UnionOrder.lean
  ==========================================
  **The order of a union is never seen** — environments that are equal are as good
  as each other for every text and every tree (`read_same_of_agrees`).  Both runs
  are type errors, or both give the invalid node, or both give valid nodes that are
  equal, and they leave equal environments.

  The two runs are coupled by matching environments, types and nodes.  Errors are
  coupled by their kind alone, because a union that is gone through in another order
  stops at another entry, and because a rejection quotes the types it has found.

  Environments are equal if they agree look-up by look-up.  Comparing them as tables
  says the same as long as no name is entered twice (`TypeEnv.same_iff_agrees`);
  entering bindings never does that, and reading does nothing else (`keyed_read`).
-/
import UnionTyping.Proofs.Grammar.Failures
import UnionTyping.Proofs.Grammar.TwoRuns
import UnionTyping.Proofs.Tree.Matching
import UnionTyping.Proofs.Types.NormalForm

namespace UnionTyping

open Text ParseM

/-! ### Equal environments -/

namespace TypeEnv

variable {env env' : TypeEnv}

/-- No variable and no member is entered twice. -/
structure Keyed (env : TypeEnv) : Prop where
  bindings : env.bindings.Keyed
  members : env.members.Keyed

instance (env : TypeEnv) : Decidable env.Keyed :=
  decidable_of_iff (env.bindings.Keyed ∧ env.members.Keyed)
    ⟨fun h => ⟨h.1, h.2⟩, fun h => ⟨h.bindings, h.members⟩⟩

theorem keyed_initial : initial.Keyed := by decide +kernel

theorem Keyed.insert (h : env.Keyed) (x : Name) (t : SourceType) : (env.insert x t).Keyed :=
  ⟨h.bindings.insert x t, h.members⟩

theorem Keyed.bind (h : env.Keyed) (bs : List (Name × SourceType)) : (env.bind bs).Keyed :=
  ⟨h.bindings.insertAll bs, h.members⟩

theorem agrees_iff_related :
    env.Agrees env' ↔ env.bindings.Related (fun t u => (t == u) = true) env'.bindings
      ∧ env.members.Related (fun t u => (t == u) = true) env'.members := by
  constructor
  · exact fun h => ⟨fun x => Node.sameDeclared_iff_rel.1 (h.bindings x),
      fun om => Node.sameDeclared_iff_rel.1 (h.members om.1 om.2)⟩
  · exact fun h => ⟨fun x => Node.sameDeclared_iff_rel.2 (h.1 x),
      fun o m => Node.sameDeclared_iff_rel.2 (h.2 (o, m))⟩

/-- Environments that agree look-up by look-up are those that are equal. -/
theorem same_iff_agrees (h : env.Keyed) (h' : env'.Keyed) :
    env.same env' = true ↔ env.Agrees env' := by
  rw [same, Bool.and_eq_true, Table.sameBy_iff_related h.bindings h'.bindings,
    Table.sameBy_iff_related h.members h'.members, agrees_iff_related]

theorem Matches.agrees (h : env.Matches env') : env.Agrees env' :=
  agrees_iff_related.2 ⟨h.bindings.imp fun _ _ _ _ _ htu => htu.beq,
    h.members.imp fun _ _ _ _ _ htu => htu.beq⟩

theorem matches_of_agrees (h : env.Agrees env') (hn : env.Normalized) (hn' : env'.Normalized) :
    env.Matches env' := by
  obtain ⟨hbindings, hmembers⟩ := agrees_iff_related.1 h
  rw [normalized_iff] at hn hn'
  constructor
  · exact hbindings.imp fun x t u ht hu htu => ⟨hn.lookup x t ht, hn'.lookup x u hu, htu⟩
  · exact hmembers.imp fun om t u ht hu htu =>
      ⟨hn.lookupMember om.1 om.2 t ht, hn'.lookupMember om.1 om.2 u hu, htu⟩

end TypeEnv

/-- Reading only enters bindings, whether it succeeds or fails. -/
theorem keyed_read (t : Text) {env : TypeEnv} (h : env.Keyed) : (read t env).env.Keyed := by
  by_cases hvalid : ∃ n, (read t env).result = .ok n ∧ n.isInvalid = false
  · obtain ⟨n, hn, hv⟩ := hvalid
    rw [env_of_reads (reads_of_read hn hv)]
    exact h.bind n.bindings
  · have hfail : ∀ n, (read t env).result = .ok n → n.isInvalid = true := fun n hn =>
      Bool.of_not_eq_false fun hv => hvalid ⟨n, hn, hv⟩
    obtain ⟨e, he⟩ := on_error_of_read hfail
    rw [env_of_on_error he]
    exact h.bind _

/-! ### The coupling -/

/-- Errors of one kind. -/
def ParseError.SameKind : ParseError → ParseError → Prop
  | .noMatch, .noMatch | .invalid .., .invalid .. | .type _, .type _ => True
  | _, _ => False

/-- The types of the second run may have their entries in another order. -/
def Coupling.reordered : Coupling where
  text _ := True
  env := TypeEnv.Matches
  type := UnionType.Matches
  node := Node.Matches
  error := ParseError.SameKind

theorem matches_of_canonical {t : SourceType} (h : SourceType.Canonical t) : t.Matches t :=
  UnionType.matches_refl (normal_of_canonical h)

theorem lawful_reordered : Coupling.reordered.Lawful where
  within _ _ := trivial
  written h := matches_of_canonical h
  beq ha hb := ha.beq_congr hb
  insert henv _ ht := henv.insert _ ht
  typed henv hn := agree_typeOf henv hn
  number h := .number (Double.same_self_iff.2 (ne_nan_of_ofPositional? h))
  string v := .string v
  reference _ := .reference _
  list h := .list h
  lambda hparams ht hns := by
    refine .lambda ⟨rfl, List.forall₂_same.2 fun p hp => ?_, ht, rfl, rfl, rfl, rfl⟩ hns
    exact ⟨rfl, matches_of_canonical (hparams p hp)⟩
  var _ := .var _
  call hf hts has := .call hf has (List.forall₂_same.2 fun t ht => matches_of_canonical (hts t ht))
  member h := .member _ h
  declaration := by
    intro c x declared t t' v v' hdeclared ht hv
    refine .declaration c x ?_ ht hv
    cases declared with
    | none => exact .none
    | some u => exact .some (matches_of_canonical (hdeclared u rfl))
  assignment := by
    intro t t' v v' ht hv
    refine .assignment ?_ hv
    cases ht with
    | var => exact .var _
    | dereference => exact .dereference _
    | member m hp => exact .member m hp
  giveBack := .giveBack
  giveValue h := .giveValue h
  noMatch := trivial
  noMatch_iff := by
    intro e e' h
    cases e <;> cases e' <;> first | exact h.elim | simp
  reject _ _ := trivial
  resultMismatch _ _ := trivial
  valueMismatch _ _ := trivial
  inForm := by
    intro e e' form h
    cases e <;> cases e' <;> try exact h.elim
    · trivial
    · next form₁ _ _ form₂ => cases form₁ <;> cases form₂ <;> trivial
    · trivial

/-! ### Reading and typing -/

/-- In equal environments both runs are type errors, or both are invalid, or both
    give valid nodes that are equal; the environments that they leave are equal.
    Equal trees have equal types, or no type, in equal environments. -/
theorem read_same_of_agrees (t : Text) (env env' : TypeEnv) (h : env.Agrees env')
    (hn : env.Normalized) (hn' : env'.Normalized) :
    Corresponds (fun _ _ => True)
        (fun n n' => n.isInvalid = n'.isInvalid ∧ (n.isInvalid = false → n.same n' = true))
        (read t env).result (read t env').result
      ∧ (read t env).env.Agrees (read t env').env
      ∧ ∀ n n' : Node, n.same n' = true → (∀ u ∈ n.types, u.Normalized) →
        (∀ u ∈ n'.types, u.Normalized) →
        Corresponds (fun _ _ => True) (fun u u' => (u == u') = true) (typeOf env n).result
          (typeOf env' n').result := by
  have henv := TypeEnv.matches_of_agrees h hn hn'
  obtain ⟨hafter, hresult⟩ :=
    lawful_reordered.relates_expression (t := t) trivial ⟨env, 0⟩ ⟨env', 0⟩ henv
  refine ⟨?_, TypeEnv.Matches.agrees hafter, ?_⟩
  · show Corresponds _ _ (settle t (expression t ⟨env, 0⟩).result).result
      (settle t (expression t ⟨env', 0⟩).result).result
    rcases hr : (expression t ⟨env, 0⟩).result with e | n <;>
      rcases hr' : (expression t ⟨env', 0⟩).result with e' | n' <;> rw [hr, hr'] at hresult
    · cases e <;> cases e' <;> first | exact hresult.elim | trivial | skip
      · exact ⟨rfl, fun h => by cases h⟩
      · exact ⟨rfl, fun h => by cases h⟩
    · exact hresult.elim
    · exact hresult.elim
    · exact ⟨Node.Matches.isInvalid_eq hresult, fun _ => Node.Matches.same hresult⟩
  · intro n n' hnode htypes htypes'
    have hmatches := n.matches_of_same hnode
      (fun u hu => UnionTyping.normalized_iff.1 (htypes u hu))
      fun u hu => UnionTyping.normalized_iff.1 (htypes' u hu)
    exact (agree_typeOf henv hmatches).imp fun _ _ _ _ h => h.beq

/-- The variables are bound in another order, and one has the entries of its type in
    another order, which the nodes record. -/
theorem read_same_of_agrees_swapped :
    let env := (TypeEnv.initial.insert ['x'] (SourceType.number.union SourceType.string)).insert
      ['z'] SourceType.void
    let env' := (TypeEnv.initial.insert ['z'] SourceType.void).insert ['x']
      (SourceType.string.union SourceType.number)
    ∃ n n', (read "var y = x".toList env).result = .ok n
      ∧ (read "var y = x".toList env').result = .ok n'
      ∧ n.types.map SourceType.text = ["number[]|string[]".toList]
      ∧ n'.types.map SourceType.text = ["string[]|number[]".toList]
      ∧ n.same n' = true
      ∧ (read "var y = x".toList env).env.same (read "var y = x".toList env').env = true := by
  intro env env'
  have hbare (x : Name) : (UnionType.bare x : SourceType).Normal := each_bare lasting_settled x
  have hinitial : TypeEnv.initial.Each Settled := TypeEnv.each_initial lasting_settled
  have henv : env.Normalized :=
    TypeEnv.normalized_iff.2 ((hinitial.insert _ ((hbare _).union (hbare _))).insert _ (hbare _))
  have henv' : env'.Normalized :=
    TypeEnv.normalized_iff.2 ((hinitial.insert _ (hbare _)).insert _ ((hbare _).union (hbare _)))
  have hk : env.Keyed := (TypeEnv.keyed_initial.insert _ _).insert _ _
  have hk' : env'.Keyed := (TypeEnv.keyed_initial.insert _ _).insert _ _
  obtain ⟨hresult, hafter, -⟩ := read_same_of_agrees "var y = x".toList env env'
    ((TypeEnv.same_iff_agrees hk hk').1 (by decide +kernel)) henv henv'
  have hsame := (TypeEnv.same_iff_agrees (keyed_read _ hk) (keyed_read _ hk')).2 hafter
  have hn : (read "var y = x".toList env).node?.map (fun n => n.types.map SourceType.text)
      = some ["number[]|string[]".toList] := by decide +kernel
  have hn' : (read "var y = x".toList env').node?.map (fun n => n.types.map SourceType.text)
      = some ["string[]|number[]".toList] := by decide +kernel
  obtain ⟨n, hn, ht⟩ := Option.map_eq_some_iff.1 hn
  obtain ⟨n', hn', ht'⟩ := Option.map_eq_some_iff.1 hn'
  obtain ⟨hr, hv⟩ := Reading.node?_eq_some_iff.1 hn
  obtain ⟨hr', -⟩ := Reading.node?_eq_some_iff.1 hn'
  rw [hr, hr'] at hresult
  exact ⟨n, n', hr, hr', ht, ht', hresult.2 hv, hsame⟩

end UnionTyping
