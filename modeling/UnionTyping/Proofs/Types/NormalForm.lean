/-
  UnionTyping/Proofs/Types/NormalForm.lean
  ========================================
  **The normal form of types** — in a normalized type no entry equals or meets
  another, the universal type stands alone, and all types inside are normalized.
  Whatever makes types of normalized types makes normalized types
  (`types_stay_normalized`).

  Adding an entry stops at the first one that it meets and looks at no later one.
  That suffices, because an entry meets others by its frame and its parameters
  alone, which taking another entry in does not change (`apart_of_merge`).  The
  invariant that the operations keep says only that no entry meets an *earlier*
  one (`Settled`).  Meeting is symmetric for entries with normal types inside, so
  that both say the same of a whole type (`normalized_iff`), though not of its
  entries alone.
-/
import UnionTyping.Proofs.Grammar.Preservation
import UnionTyping.Proofs.Types.Alike

namespace UnionTyping

open UnionType

section

variable {ν : Type} [DecidableEq ν] [Vocabulary ν]

/-- No entry equals or meets another one, and the universal type is the only entry. -/
structure Distinct (es : List (Entry ν)) : Prop where
  apart : es.Pairwise fun d e => d.Apart e ∧ e.Apart d
  universal : ∀ e ∈ es, e.isAny = true → es = [e]

/-- The entries are distinct at every depth. -/
def UnionType.Normalized (t : UnionType ν) : Prop := t.Each Distinct

theorem Distinct.settled {es : List (Entry ν)} (h : Distinct es) : Settled es where
  apart := h.apart.imp And.left
  universal := by
    intro hlen e he
    cases hany : e.isAny with
    | false => rfl
    | true =>
      rw [h.universal e he hany] at hlen
      exact absurd hlen (Nat.lt_irrefl 1)

theorem Settled.distinct {es : List (Entry ν)} (h : Settled es)
    (hparts : ∀ e ∈ es, ∀ a ∈ e.parts, a.Normal) : Distinct es where
  apart := by
    refine h.apart.imp_of_mem ?_
    intro d e _ he hde
    refine ⟨hde, ?_⟩
    rw [Entry.apart_iff] at hde ⊢
    exact fun hed => hde (Entry.alike_symm (hparts e he) hed)
  universal := by
    intro e he hany
    have hlen : ¬1 < es.length := by
      intro hlen
      rw [h.universal hlen e he] at hany
      cases hany
    obtain ⟨d, rfl⟩ : ∃ d, es = [d] := by
      have hpos := List.length_pos_of_mem he
      exact List.length_eq_one_iff.1 (by omega)
    rw [List.mem_singleton.1 he]

theorem normalized_iff {t : UnionType ν} : t.Normalized ↔ t.Normal := by
  constructor
  · exact fun h => h.imp fun _ hes => hes.settled
  · intro h
    induction h with
    | of hes hparts ih => exact .of (hes.distinct hparts) ih

/-! ### Operations on types -/

theorem Normalized.union {a b : UnionType ν} (ha : a.Normalized) (hb : b.Normalized) :
    (a.union b).Normalized :=
  normalized_iff.2 (Normal.union (normalized_iff.1 ha) (normalized_iff.1 hb))

theorem Normalized.ofEntries {es : List (Entry ν)}
    (hes : ∀ e ∈ es, ∀ a ∈ e.parts, a.Normalized) : (ofEntries es).Normalized := by
  refine normalized_iff.2 (Each.unionAll kept_settled (fun _ => ⟨.nil, fun _ e he => by cases he⟩) ?_)
  intro t ht
  obtain ⟨e, he, rfl⟩ := List.mem_map.1 ht
  exact .single (settled_singleton e) fun a ha => normalized_iff.1 (hes e he a ha)

end

theorem normalized_of_parseType {t : Text} {type : SourceType} (h : parseType t = .ok type) :
    type.Normalized := normalized_iff.2 (normal_of_canonical (canonical_of_parseType h))

theorem Normalized.apply {s : Substitution} {t : SourceType}
    (hs : ∀ n u, s.find? n = some u → u.Normalized) (ht : t.Normalized) :
    (s.apply t).Normalized :=
  normalized_iff.2 (Substitution.each_apply kept_settled (fun n u hn => normalized_iff.1 (hs n u hn))
    (normalized_iff.1 ht))

theorem normalized_of_assign {generics : List Name} {params actual types : List SourceType}
    {result expected : SourceType} (hactual : ∀ t ∈ actual, t.Normalized)
    (hexpected : expected.Normalized)
    (h : (Generics.assign generics params result actual expected).result = .ok types) :
    ∀ t ∈ types, t.Normalized := by
  intro t ht
  refine normalized_iff.2 ((Generics.each_assign kept_settled ?_ ?_).of_ok h t ht)
  · exact fun u hu => normalized_iff.1 (hactual u hu)
  · exact Or.inr (normalized_iff.1 hexpected)

theorem normalized_of_resolve {reg : Registry} {t : SourceType} {bindings : Registry.Bindings}
    {type : RuntimeType} (hb : ∀ n u, bindings.find? n = some u → u.Normalized)
    (h : reg.resolve t bindings = .ok type) : type.Normalized := by
  refine normalized_iff.2 (Registry.each_resolveIn kept_settled ?_ ?_ ?_ [] type h)
  · exact ⟨.nil, fun _ e he => by cases he⟩
  · exact fun e _ => settled_singleton e
  · exact fun n u hn => normalized_iff.1 (hb n u hn)

/-! ### Typing and reading -/

/-- The types of the variables and of the members are normalized. -/
def TypeEnv.Normalized (env : TypeEnv) : Prop := env.Each Distinct

theorem TypeEnv.normalized_iff {env : TypeEnv} : env.Normalized ↔ env.Each Settled := by
  constructor
  · exact fun h => ⟨fun x t hx => UnionTyping.normalized_iff.1 (h.lookup x t hx),
      fun o m t hm => UnionTyping.normalized_iff.1 (h.lookupMember o m t hm)⟩
  · exact fun h => ⟨fun x t hx => UnionTyping.normalized_iff.2 (h.lookup x t hx),
      fun o m t hm => UnionTyping.normalized_iff.2 (h.lookupMember o m t hm)⟩

theorem normalized_of_typeOf {env : TypeEnv} {n : Node} {type : SourceType}
    (henv : env.Normalized) (hn : ∀ t ∈ n.types, t.Normalized)
    (h : (typeOf env n).result = .ok type) : type.Normalized := by
  refine normalized_iff.2 ((each_typeOf lasting_settled (TypeEnv.normalized_iff.1 henv) n ?_).of_ok h)
  exact fun t ht => normalized_iff.1 (hn t ht)

theorem normalized_readProgram {env : TypeEnv} (t : Text) (henv : env.Normalized) :
    (readProgram t env).env.Normalized :=
  TypeEnv.normalized_iff.2 (each_readProgram lasting_settled t (TypeEnv.normalized_iff.1 henv)).1

/-- Of normalized types and entries with normalized types inside, unions are
    normalized, substitution and solving generics give normalized types, and so do
    typing in a normalized environment and resolving with normalized bindings.  A
    type that is read is normalized, and a program leaves a normalized environment
    whether it succeeds or fails. -/
theorem types_stay_normalized :
    (∀ a b : SourceType, a.Normalized → b.Normalized → (a.union b).Normalized)
      ∧ (∀ es : List SourceEntry, (∀ e ∈ es, ∀ a ∈ e.parts, a.Normalized) →
        (ofEntries es).Normalized)
      ∧ (∀ t type, parseType t = .ok type → type.Normalized)
      ∧ (∀ (s : Substitution) (t : SourceType), (∀ n u, s.find? n = some u → u.Normalized) →
        t.Normalized → (s.apply t).Normalized)
      ∧ (∀ generics params result actual expected types, (∀ t ∈ actual, t.Normalized) →
        expected.Normalized →
        (Generics.assign generics params result actual expected).result = .ok types →
        ∀ t ∈ types, t.Normalized)
      ∧ (∀ (env : TypeEnv) (n : Node) type, env.Normalized → (∀ t ∈ n.types, t.Normalized) →
        (typeOf env n).result = .ok type → type.Normalized)
      ∧ (∀ (env : TypeEnv) (t : Text), env.Normalized → (readProgram t env).env.Normalized)
      ∧ ∀ (reg : Registry) (t : SourceType) (bindings : Registry.Bindings) type,
        (∀ n u, bindings.find? n = some u → u.Normalized) → reg.resolve t bindings = .ok type →
        type.Normalized :=
  ⟨fun _ _ => Normalized.union, fun _ => Normalized.ofEntries, fun _ _ => normalized_of_parseType,
    fun _ _ => Normalized.apply, fun _ _ _ _ _ _ => normalized_of_assign,
    fun _ _ _ => normalized_of_typeOf, fun _ t => normalized_readProgram t,
    fun _ _ _ _ => normalized_of_resolve⟩

/-- Substitution makes two entries meet, and a program binds a list of them. -/
theorem types_stay_normalized_list :
    let s := Substitution.ofBindings [['T']] [SourceType.list .number]
    let t := (UnionType.bare ['T']).union (SourceType.list .string)
    (∀ n u, s.find? n = some u → u.Normalized) ∧ t.Normalized ∧ t.entries.length = 2
      ∧ (s.apply t).Normalized
      ∧ (s.apply t == SourceType.list (SourceType.number.union SourceType.string)) = true
      ∧ TypeEnv.initial.Normalized
      ∧ (readProgram "var xs = \x7b5, \"a\", \x7b\x7d\x7d".toList .initial).env.Normalized := by
  intro s t
  have hbare (n : Name) : (UnionType.bare n).Normalized :=
    normalized_iff.2 (each_bare lasting_settled n)
  have hlist (n : Name) : (SourceType.list (UnionType.bare n)).Normalized :=
    normalized_iff.2 (each_named lasting_settled (each_bare lasting_settled n))
  have hs : ∀ n u, s.find? n = some u → u.Normalized :=
    each_ofBindings (List.forall_mem_singleton.2 (hlist _))
  have hinitial : TypeEnv.initial.Normalized :=
    TypeEnv.normalized_iff.2 (TypeEnv.each_initial lasting_settled)
  obtain ⟨hunion, _, _, happly, _, _, hprogram, _⟩ := types_stay_normalized
  have ht : t.Normalized := hunion _ _ (hbare _) (hlist _)
  exact ⟨hs, ht, by decide +kernel, happly s t hs ht, by decide +kernel, hinitial,
    hprogram _ _ hinitial⟩

end UnionTyping
