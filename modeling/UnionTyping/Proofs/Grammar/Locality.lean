/-
  UnionTyping/Proofs/Grammar/Locality.lean
  ========================================
  **Locality of names** — a name that is no word of a text plays no part in
  reading the text.  Whether it is bound, and to what, changes neither the answer
  nor what the reading binds, on success and on every way to fail, and the node
  that is returned has the same type with and without it.

  The two runs are coupled by equality of nodes and errors, and by environments
  that differ in the one binding (`Coupling.beside`).  Typing looks up the names
  of a node outside lambdas and declarations only (`Node.lookups`), and those, as
  well as the names that are bound, are words of the text.
-/
import UnionTyping.Proofs.Grammar.TwoRuns

namespace UnionTyping

open Text Typing

/-! ### What typing looks up -/

mutual

/-- The names that typing the node looks up. -/
def Node.lookups : Node → List Name
  | .reference x | .var x => [x]
  | .list es => Node.lookupsAll es
  | .call f as _ => Node.lookups f ++ Node.lookupsAll as
  | .member p _ => Node.lookups p
  | .assignment t v => Target.lookups t ++ Node.lookups v
  | .ret (some v) => Node.lookups v
  | _ => []

def Target.lookups : Target → List Name
  | .var x | .dereference x => [x]
  | .member p _ => Node.lookups p

def Node.lookupsAll : List Node → List Name
  | [] => []
  | n :: ns => Node.lookups n ++ Node.lookupsAll ns

end

section

variable {env env' : TypeEnv}

theorem ofVariable_congr {x : Name} (h : env.lookup? x = env'.lookup? x) :
    ofVariable env x = ofVariable env' x := by
  simp only [ofVariable, h]

theorem dereferenced_congr {x : Name} (h : env.lookup? x = env'.lookup? x) (node : Text) :
    dereferenced env x node = dereferenced env' x node := by
  simp only [dereferenced, ofVariable_congr h]

theorem memberType_congr (hm : env.members = env'.members) (parent : SourceType) (m : Name)
    (node : Text) : memberType env parent m node = memberType env' parent m node := by
  have hlookup (owner : Name) : env.lookupMember? owner m = env'.lookupMember? owner m := by
    simp only [TypeEnv.lookupMember?, hm]
  simp only [memberType, hlookup]

mutual

/-- The type of a node depends on the members and on the names that are looked up. -/
theorem typeOf_congr (hm : env.members = env'.members) :
    (n : Node) → (∀ x ∈ n.lookups, env.lookup? x = env'.lookup? x) → typeOf env n = typeOf env' n
  | .number _, _ | .string _, _ | .lambda .., _ | .declaration .., _ | .ret none, _
  | .invalid .., _ => by simp only [typeOf]
  | .reference x, h | .var x, h => by
    simp only [typeOf, ofVariable_congr (h x (List.mem_singleton_self x))]
  | .list es, h => by simp only [typeOf, typesOf_congr hm es h]
  | .call f as gs, h => by
    rw [Node.lookups, List.forall_mem_append] at h
    simp only [typeOf, typeOf_congr hm f h.1, typesOf_congr hm as h.2]
  | .member p m, h => by simp only [typeOf, typeOf_congr hm p h, memberType_congr hm]
  | .assignment t v, h => by
    rw [Node.lookups, List.forall_mem_append] at h
    simp only [typeOf, typeOfTarget_congr hm t h.1, typeOf_congr hm v h.2]
  | .ret (some v), h => by simp only [typeOf, typeOf_congr hm v h]

theorem typeOfTarget_congr (hm : env.members = env'.members) :
    (t : Target) → (∀ x ∈ t.lookups, env.lookup? x = env'.lookup? x) →
      ∀ node, typeOfTarget env node t = typeOfTarget env' node t
  | .var x, h, node => by
    simp only [typeOfTarget, ofVariable_congr (h x (List.mem_singleton_self x))]
  | .dereference x, h, node => by
    simp only [typeOfTarget, dereferenced_congr (h x (List.mem_singleton_self x))]
  | .member p m, h, node => by simp only [typeOfTarget, typeOf_congr hm p h, memberType_congr hm]

theorem typesOf_congr (hm : env.members = env'.members) :
    (ns : List Node) → (∀ x ∈ Node.lookupsAll ns, env.lookup? x = env'.lookup? x) →
      typesOf env ns = typesOf env' ns
  | [], _ => by simp only [typesOf]
  | n :: ns, h => by
    rw [Node.lookupsAll, List.forall_mem_append] at h
    simp only [typesOf, typeOf_congr hm n h.1, typesOf_congr hm ns h.2]

end

end

/-! ### One more binding -/

namespace Table

variable {κ α : Type} [DecidableEq κ] {t u : Table κ α} {x y : κ} {a : α}

/-- Two keys can be entered in either order. -/
theorem perm_insert_insert (h : t.pairs.Perm (u.insert x a).pairs) (hy : y ≠ x) (b : α) :
    (t.insert y b).pairs.Perm ((u.insert y b).insert x a).pairs := by
  have hfilter := (h.filter fun p => p.1 != y).cons (y, b)
  refine hfilter.trans ?_
  simp only [insert, List.filter_cons, List.filter_filter, Ne.symm hy, hy, bne_iff_ne, ne_eq,
    not_false_eq_true, if_true, Bool.and_comm]
  exact List.Perm.swap _ _ _

end Table

/-- The same variables and members with the same types, whatever the order in
    which the variables were bound. -/
structure TypeEnv.Equiv (env env' : TypeEnv) : Prop where
  bindings : env.bindings.pairs.Perm env'.bindings.pairs
  lookup : ∀ y, env.lookup? y = env'.lookup? y
  members : env.members = env'.members

namespace TypeEnv

theorem equiv_refl (env : TypeEnv) : env.Equiv env := ⟨.refl _, fun _ => rfl, rfl⟩

/-- Two names can be bound in either order. -/
theorem Equiv.insert {env env' : TypeEnv} {x y : Name} {type : SourceType}
    (h : env.Equiv (env'.insert x type)) (hy : y ≠ x) (t : SourceType) :
    (env.insert y t).Equiv ((env'.insert y t).insert x type) where
  bindings := Table.perm_insert_insert h.bindings hy t
  lookup := by
    intro z
    have hz := h.lookup z
    rw [lookup?_insert] at hz
    simp only [lookup?_insert, hz]
    by_cases hzx : z = x
    · rw [if_pos hzx, if_pos hzx, if_neg]
      rintro rfl
      exact hy hzx
    · rw [if_neg hzx, if_neg hzx]
  members := h.members

end TypeEnv

/-! ### The coupling -/

/-- The first run is in an environment with one more binding. -/
def Coupling.beside (x : Name) (type : SourceType) : Coupling where
  text t := x ∉ words t
  env env env' := env.Equiv (env'.insert x type)
  type := Eq
  node n n' := n = n' ∧ x ∉ n.lookups
  error := Eq

section

variable {x : Name} {type : SourceType}

theorem Coupling.ne_of_beside {y : Name} (h : (beside x type).name y) : y ≠ x := by
  rintro rfl
  exact h.2 ((within_refl y).mem_words h.1)

/-- Typing does not look the name up. -/
theorem typeOf_beside {env env' : TypeEnv} (henv : env.Equiv (env'.insert x type)) {n : Node}
    (hn : x ∉ n.lookups) : typeOf env n = typeOf env' n := by
  have hm : env.members = env'.members := henv.members
  refine typeOf_congr hm n fun y hy => ?_
  have hyx : y ≠ x := by
    rintro rfl
    exact hn hy
  rw [henv.lookup, TypeEnv.lookup?_insert, if_neg hyx]

theorem nodes_beside {ns ns' : List Node}
    (h : List.Forall₂ (Coupling.beside x type).node ns ns') :
    ns = ns' ∧ x ∉ Node.lookupsAll ns := by
  induction h with
  | nil => exact ⟨rfl, List.not_mem_nil⟩
  | cons hn _ ih =>
    obtain ⟨rfl, hx⟩ := hn
    obtain ⟨rfl, hxs⟩ := ih
    refine ⟨rfl, ?_⟩
    rw [Node.lookupsAll, List.mem_append, not_or]
    exact ⟨hx, hxs⟩

theorem target_beside {t t' : Target} (h : (Coupling.beside x type).Target t t') :
    t = t' ∧ x ∉ t.lookups := by
  cases h with
  | var hy | dereference hy =>
    exact ⟨rfl, fun hm => Coupling.ne_of_beside hy (List.mem_singleton.1 hm).symm⟩
  | member m hp =>
    obtain ⟨rfl, hx⟩ := hp
    exact ⟨rfl, hx⟩

theorem lawful_beside : (Coupling.beside x type).Lawful where
  within ht hu := fun hx => ht (hu hx)
  written _ := rfl
  beq := by
    rintro _ _ _ _ rfl rfl
    rfl
  insert := by
    rintro env env' y t _ henv hy rfl
    exact henv.insert (Coupling.ne_of_beside hy) t
  typed := by
    rintro env env' n _ henv ⟨rfl, hn⟩
    rw [typeOf_beside henv hn]
    cases (typeOf env' n).result with
    | ok _ | error _ => rfl
  number _ := ⟨rfl, List.not_mem_nil⟩
  string _ := ⟨rfl, List.not_mem_nil⟩
  reference hy := ⟨rfl, fun hm => Coupling.ne_of_beside hy (List.mem_singleton.1 hm).symm⟩
  list h := by
    obtain ⟨rfl, hx⟩ := nodes_beside h
    exact ⟨rfl, hx⟩
  lambda := by
    rintro head t _ ns ns' _ rfl h
    obtain ⟨rfl, _⟩ := nodes_beside h
    exact ⟨rfl, List.not_mem_nil⟩
  var hy := ⟨rfl, fun hm => Coupling.ne_of_beside hy (List.mem_singleton.1 hm).symm⟩
  call := by
    rintro f _ as as' ts ⟨rfl, hf⟩ _ h
    obtain ⟨rfl, has⟩ := nodes_beside h
    exact ⟨rfl, by rw [Node.lookups, List.mem_append, not_or]; exact ⟨hf, has⟩⟩
  member := by
    rintro p _ m ⟨rfl, hp⟩
    exact ⟨rfl, hp⟩
  declaration := by
    rintro c y declared t _ v _ _ rfl ⟨rfl, _⟩
    exact ⟨rfl, List.not_mem_nil⟩
  assignment := by
    rintro t t' v _ ht ⟨rfl, hv⟩
    obtain ⟨rfl, htl⟩ := target_beside ht
    exact ⟨rfl, by rw [Node.lookups, List.mem_append, not_or]; exact ⟨htl, hv⟩⟩
  giveBack := ⟨rfl, List.not_mem_nil⟩
  giveValue := by
    rintro v _ ⟨rfl, hv⟩
    exact ⟨rfl, hv⟩
  noMatch := rfl
  noMatch_iff := by
    rintro e _ rfl
    exact Iff.rfl
  reject _ _ := rfl
  resultMismatch := by
    rintro fragment a _ b _ rfl rfl
    rfl
  valueMismatch := by
    rintro fragment y a _ b _ rfl rfl
    rfl
  inForm := by
    rintro e _ form rfl
    rfl

end

/-! ### Locality -/

/-- Binding a name that is no word of the text changes nothing but that the name is
    bound afterwards as well. -/
theorem read_insert_of_not_mem_words (t : Text) (env : TypeEnv) (x : Name) (type : SourceType)
    (hx : x ∉ words t) :
    (read t (env.insert x type)).result = (read t env).result
      ∧ (read t (env.insert x type)).env.Equiv ((read t env).env.insert x type)
      ∧ ∀ n, (read t env).result = .ok n →
        (typeOf (read t (env.insert x type)).env n).result = (typeOf (read t env).env n).result := by
  obtain ⟨henv, hresult⟩ := (lawful_beside : (Coupling.beside x type).Lawful).relates_expression hx
    ⟨env.insert x type, 0⟩ ⟨env, 0⟩ (TypeEnv.equiv_refl _)
  have hsame : (expression t ⟨env.insert x type, 0⟩).result = (expression t ⟨env, 0⟩).result := by
    rcases hr : (expression t ⟨env.insert x type, 0⟩).result with e | n <;>
      rcases hr' : (expression t ⟨env, 0⟩).result with e' | n' <;> rw [hr, hr'] at hresult
    · exact congrArg Except.error hresult
    · exact hresult.elim
    · exact hresult.elim
    · exact congrArg Except.ok hresult.1
  refine ⟨?_, henv, ?_⟩
  · show (settle t _).result = (settle t _).result
    rw [hsame]
  · intro n hn
    refine congrArg Traced.result (typeOf_beside henv ?_)
    rcases reads_or_sentinel_of_read hn with hr | ⟨_, _, rfl, _⟩
    · have hr : (expression t ⟨env, 0⟩).result = .ok n := congrArg Prod.fst hr
      rw [hsame, hr] at hresult
      exact hresult.2
    · exact List.not_mem_nil

/-- The bound name begins some of the words and is none of them. -/
theorem read_insert_of_not_mem_words_prefix :
    "x".toList ∉ words "(p) => \x7bvar xs = x1; \x7bxs, p\x7d;\x7d".toList
      ∧ ∃ n, (read "(p) => \x7bvar xs = x1; \x7bxs, p\x7d;\x7d".toList
          (TypeEnv.empty.insert "x1".toList .number)).result = .ok n
        ∧ n.text = "(p:any[])=>\x7bvar xs = x1;\x7bxs,p\x7d;\x7d".toList
        ∧ (read "(p) => \x7bvar xs = x1; \x7bxs, p\x7d;\x7d".toList
            ((TypeEnv.empty.insert "x1".toList .number).insert "x".toList .string)).result
          = .ok n := by
  have hx : "x".toList ∉ words "(p) => \x7bvar xs = x1; \x7bxs, p\x7d;\x7d".toList := by
    decide +kernel
  have h : (read "(p) => \x7bvar xs = x1; \x7bxs, p\x7d;\x7d".toList
      (TypeEnv.empty.insert "x1".toList .number)).node?.map Node.text
      = some "(p:any[])=>\x7bvar xs = x1;\x7bxs,p\x7d;\x7d".toList := by decide +kernel
  obtain ⟨n, hn, ht⟩ := Option.map_eq_some_iff.1 h
  obtain ⟨hr, -⟩ := Reading.node?_eq_some_iff.1 hn
  obtain ⟨hresult, -, -⟩ := read_insert_of_not_mem_words _ _ _ .string hx
  exact ⟨hx, n, hr, ht, hresult.trans hr⟩

end UnionTyping
