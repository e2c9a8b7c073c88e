/-
  UnionTyping/Proofs/Grammar/Effects.lean
  =======================================
  **What a reading binds** — the environment that a reading leaves is the one it
  began with, updated by the bindings that can be read off the node
  (`Node.bindings`), in the order of the source.  Nothing else in the text
  matters: neither the types that are looked up on the way nor the scopes that
  are opened and closed again.

  A declaration with a written type binds its name twice, before its value is
  read and after.  Only the second binding is seen in the end, because entering a
  name takes away what was entered for it (`TypeEnv.insert_bind_insert`).
-/
import UnionTyping.Proofs.Grammar.Reads

namespace UnionTyping

open Text

/-! ### Bindings of a node -/

mutual

/-- The names that reading the node binds, with their types. -/
def Node.bindings : Node → List (Name × SourceType)
  | .list es => Node.bindingsAll es
  | .lambda h body =>
    if h.ownScope then [] else h.params.map (fun p => (p.name, p.type)) ++ Node.bindingsAll body
  | .call f as _ => Node.bindings f ++ Node.bindingsAll as
  | .member p _ => Node.bindings p
  | .declaration _ name _ type value => Node.bindings value ++ [(name, type)]
  | .assignment t value => Target.bindings t ++ Node.bindings value
  | .ret (some value) => Node.bindings value
  | _ => []

def Target.bindings : Target → List (Name × SourceType)
  | .member p _ => Node.bindings p
  | _ => []

def Node.bindingsAll : List Node → List (Name × SourceType)
  | [] => []
  | n :: ns => Node.bindings n ++ Node.bindingsAll ns

end

/-! ### Entering bindings -/

namespace Table

variable {κ α : Type} [DecidableEq κ] {x : κ} {t u : Table κ α}

/-- The same table but for what is entered for `x`. -/
def AgreesBeside (x : κ) (t u : Table κ α) : Prop :=
  t.filterKeys (· != x) = u.filterKeys (· != x)

theorem agreesBeside_insert (t : Table κ α) (x : κ) (a : α) : AgreesBeside x (t.insert x a) t := by
  simp [AgreesBeside, insert, filterKeys]

theorem AgreesBeside.insert_eq (h : AgreesBeside x t u) (a : α) :
    t.insert x a = u.insert x a := by
  have hp : (t.filterKeys (· != x)).pairs = (u.filterKeys (· != x)).pairs := congrArg pairs h
  exact congrArg (fun ps => Table.mk ((x, a) :: ps)) hp

theorem AgreesBeside.insert (h : AgreesBeside x t u) (y : κ) (a : α) :
    AgreesBeside x (t.insert y a) (u.insert y a) := by
  by_cases hy : y = x
  · subst hy
    rw [h.insert_eq, AgreesBeside]
  · -- the filters for `y` and for `x` commute
    have hc (v : Table κ α) : (v.insert y a).filterKeys (· != x)
        = (v.filterKeys (· != x)).insert y a := by
      simp [Table.insert, filterKeys, hy, List.filter_filter, Bool.and_comm]
    rw [AgreesBeside, hc, hc, h]

theorem AgreesBeside.insertAll (h : AgreesBeside x t u) (ps : List (κ × α)) :
    AgreesBeside x (t.insertAll ps) (u.insertAll ps) := by
  induction ps generalizing t u with
  | nil => exact h
  | cons p ps ih => exact ih (h.insert p.1 p.2)

theorem insertAll_append (t : Table κ α) (ps qs : List (κ × α)) :
    t.insertAll (ps ++ qs) = (t.insertAll ps).insertAll qs := List.foldl_append

end Table

namespace TypeEnv

/-- Enter bindings in their order. -/
def bind (env : TypeEnv) (bs : List (Name × SourceType)) : TypeEnv :=
  { env with bindings := env.bindings.insertAll bs }

@[simp] theorem bind_nil (env : TypeEnv) : env.bind [] = env := rfl

@[simp] theorem bind_cons (env : TypeEnv) (b : Name × SourceType) (bs : List (Name × SourceType)) :
    env.bind (b :: bs) = (env.insert b.1 b.2).bind bs := rfl

@[simp] theorem members_bind (env : TypeEnv) (bs : List (Name × SourceType)) :
    (env.bind bs).members = env.members := rfl

theorem bind_append (env : TypeEnv) (bs cs : List (Name × SourceType)) :
    env.bind (bs ++ cs) = (env.bind bs).bind cs := by
  simp only [bind, Table.insertAll_append]

theorem lookup?_bind (env : TypeEnv) (bs : List (Name × SourceType)) (x : Name) :
    (env.bind bs).lookup? x = (bs.reverse.lookup x).or (env.lookup? x) := by
  induction bs generalizing env with
  | nil => rfl
  | cons b bs ih =>
    rw [bind_cons, ih, lookup?_insert, List.reverse_cons, List.lookup_append]
    obtain ⟨y, type⟩ := b
    by_cases hx : x = y
    · subst hx
      cases bs.reverse.lookup x <;> simp
    · have hxy : (x == y) = false := by simpa using hx
      cases bs.reverse.lookup x <;> simp [hx, List.lookup_cons, hxy]

theorem bindParameters_eq_bind (env : TypeEnv) (params : List Parameter) :
    env.bindParameters params = env.bind (params.map fun p => (p.name, p.type)) := by
  induction params generalizing env with
  | nil => rfl
  | cons p ps ih => exact ih _

/-- An earlier entry for a name is not seen behind a later one. -/
theorem insert_bind_insert (env : TypeEnv) (x : Name) (t u : SourceType)
    (bs : List (Name × SourceType)) :
    ((env.insert x t).bind bs).insert x u = (env.bind bs).insert x u := by
  have h := (Table.agreesBeside_insert env.bindings x t).insertAll bs
  simp only [insert, bind, h.insert_eq]

end TypeEnv

/-! ### The effect of a reading -/

section

variable {t : Text} {env env' : TypeEnv}

/-- The effect of texts that are read one after the other. -/
theorem Chain.env_eq_bind {R : Reading.Relation} {ts : List Text} {ns : List Node}
    (h : Chain R ts env ns env') (hR : ∀ u e m e', R u e m e' → e' = e.bind m.bindings) :
    env' = env.bind (Node.bindingsAll ns) := by
  induction h with
  | nil => rfl
  | cons hn _ ih => rw [ih, hR _ _ _ _ hn, Node.bindingsAll, TypeEnv.bind_append]

theorem env_of_reads {n : Node} (h : Reads t env n env') : env' = env.bind n.bindings := by
  refine reads_induction (P := fun _ env n env' => env' = env.bind n.bindings) ?_ h
  intro t env k n env' _ hf
  have hchain {ts : List Text} {ns : List Node} {e e' : TypeEnv}
      (h : Chain (fun u e m e' => Reads u e m e' ∧ e' = e.bind m.bindings) ts e ns e') :
      e' = e.bind (Node.bindingsAll ns) := h.env_eq_bind fun _ _ _ _ hu => hu.2
  cases hf with
  | number | string | reference | giveBack | var => rfl
  | call hf _ ha =>
    have h₁ := hf.2
    have h₂ := hchain ha
    subst h₁
    rw [h₂, Node.bindings, TypeEnv.bind_append]
  | list he =>
    rw [hchain he, Node.bindings]
  | @lambda shape _ _ _ _ _ _ _ _ _ _ _ _ hc =>
    have hbody := hchain hc
    rw [TypeEnv.bindParameters_eq_bind] at hbody
    cases ho : shape.ownScope with
    | true => simp [Node.bindings]
    | false => simp [Node.bindings, hbody, TypeEnv.bind_append]
  | short hb =>
    simp [Node.bindings, Node.bindingsAll, hb.2]
  | member hp => exact hp.2
  | giveValue hv => exact hv.2
  | @declaration _ rest _ _ declared n inferred env₁ _ _ _ hv =>
    have h₁ := hv.2
    rw [Node.bindings, TypeEnv.bind_append, TypeEnv.bind_cons, TypeEnv.bind_nil]
    cases declared with
    | none => rw [h₁]; rfl
    | some type =>
      rw [h₁]
      exact TypeEnv.insert_bind_insert _ _ _ _ _
  | assignment htarget hv =>
    rw [Node.bindings, TypeEnv.bind_append, hv.2]
    cases htarget with
    | dereference | var => rfl
    | member _ _ _ hp => rw [hp.2, Target.bindings]

/-- A valid answer tells the environment that is left, and the members stay. -/
theorem env_of_valid (t : Text) (env : TypeEnv) (n : Node) (h : (read t env).result = .ok n)
    (hv : n.isInvalid = false) :
    (read t env).env = env.bind n.bindings ∧ (read t env).env.members = env.members := by
  have he := env_of_reads (reads_of_read h hv)
  refine ⟨he, ?_⟩
  rw [he, TypeEnv.members_bind]

/-- An element, the parameter of a shared body and what it binds, but nothing of
    a body with a scope of its own. -/
theorem env_of_valid_list :
    ∃ n, (read "\x7bvar x = 5, (p)~>\x7bvar y = p\x7d, (q)=>\x7bvar z = q\x7d\x7d".toList
        .empty).result = .ok n
      ∧ n.isInvalid = false ∧ n.bindings.map Prod.fst = [['x'], ['p'], ['y']]
      ∧ (read "\x7bvar x = 5, (p)~>\x7bvar y = p\x7d, (q)=>\x7bvar z = q\x7d\x7d".toList .empty).env
        = TypeEnv.empty.bind n.bindings
      ∧ (read "\x7bvar x = 5, (p)~>\x7bvar y = p\x7d, (q)=>\x7bvar z = q\x7d\x7d".toList
        .empty).env.members = TypeEnv.empty.members := by
  have h : (read "\x7bvar x = 5, (p)~>\x7bvar y = p\x7d, (q)=>\x7bvar z = q\x7d\x7d".toList
      .empty).node?.map (fun n => n.bindings.map Prod.fst) = some [['x'], ['p'], ['y']] := by decide +kernel
  obtain ⟨n, hn, hb⟩ := Option.map_eq_some_iff.1 h
  obtain ⟨hr, hv⟩ := Reading.node?_eq_some_iff.1 hn
  exact ⟨n, hr, hv, hb, env_of_valid _ .empty n hr hv⟩

end

end UnionTyping
