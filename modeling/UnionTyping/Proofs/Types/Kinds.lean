/-
  UnionTyping/Proofs/Types/Kinds.lean
  ===================================
  **Well-kinded types** — a type resolves exactly if every name in it means
  something where it stands: alone, a generic of a function around it or a bound
  name, and otherwise a data type with as many arguments as stand there
  (`resolve_wellKinded`).  Nothing is lost where entries meet or are absorbed, since
  all of them are resolved before they are united.

  What a type resolves to is closed: its data types have as many arguments as their
  arities say, and its generics stand inside functions that declare them.  Bound
  types are put in as they are, so they have to be closed themselves.
-/
import UnionTyping.Proofs.Types.Invariants
import UnionTyping.Proofs.Types.Scopes

namespace UnionTyping

open UnionType

/-- A data type has as many arguments as its arity says, and a generic is declared
    around it. -/
def RuntimeEntry.Closed (scope : List Name) : RuntimeEntry → Prop
  | .named (.data _ arity) as => as.length = arity
  | .named (.generic n) _ => n ∈ scope
  | .function .. => True

def RuntimeType.Closed (t : RuntimeType) : Prop := t.EachIn RuntimeEntry.Closed

namespace Registry

variable {reg : Registry} {bindings : Bindings} {declared : List Name}

/-- Inside functions that declare `scope`, the name of the entry means something. -/
def Knows (reg : Registry) (bindings : Bindings) (scope : List Name) : SourceEntry → Prop
  | .named n as =>
    (as = [] ∧ (n ∈ scope ∨ ∃ u, bindings.find? n = some u)) ∨ reg.find? n = some as.length
  | .function .. => True

def WellKinded (reg : Registry) (bindings : Bindings) (t : SourceType) : Prop :=
  t.EachIn (reg.Knows bindings)

/-! ### Resolving succeeds -/

theorem data?_eq_ok_iff {n : Name} {count : Nat} {head : RuntimeHead} :
    data? reg n count = .ok head ↔ reg.find? n = some count ∧ head = .data n count := by
  rw [data?]
  cases reg.find? n with
  | none => simp
  | some arity =>
    by_cases h : arity = count
    · subst h
      simp [eq_comm]
    · simp [h]

theorem exists_data?_iff {n : Name} {count : Nat} :
    (∃ head, data? reg n count = .ok head) ↔ reg.find? n = some count := by
  simp [data?_eq_ok_iff]

/-- The precedence of a name alone is a matter of what it resolves to, not of whether
    it does. -/
theorem exists_resolveEntry_bare_iff {n : Name} :
    (∃ x, resolveEntry reg bindings declared (.named n []) = .ok x)
      ↔ reg.Knows bindings declared (.named n []) := by
  have hcontains : declared.contains n = true ↔ n ∈ declared := List.contains_iff_mem
  have hdata : (∃ x, (do return .bare (← data? reg n 0) : Except TypeError RuntimeType) = .ok x)
      ↔ reg.find? n = some 0 := by
    rw [← exists_data?_iff]
    constructor
    · rintro ⟨x, hx⟩
      obtain ⟨head, hd, _⟩ := bind_eq_ok_iff.1 hx
      exact ⟨head, hd⟩
    · rintro ⟨head, hd⟩
      exact ⟨_, bind_eq_ok_iff.2 ⟨head, hd, rfl⟩⟩
  rw [resolveEntry, Knows]
  by_cases hn : n ∈ declared
  · simp [hn]
  · rw [if_neg (mt hcontains.1 hn)]
    cases bindings.find? n with
    | some u => simp
    | none =>
      refine hdata.trans ?_
      simp [hn]

theorem exists_resolveEntry_iff {e : SourceEntry} :
    (∃ x, resolveEntry reg bindings declared e = .ok x)
      ↔ reg.Knows bindings declared e
        ∧ ∀ a ∈ e.parts, ∃ x, resolveIn reg bindings (declared ++ e.generics) a = .ok x := by
  rcases e with ⟨n, _ | ⟨a, as⟩⟩ | ⟨t, ps, r⟩
  · rw [exists_resolveEntry_bare_iff]
    exact (and_iff_left (List.forall_mem_nil _)).symm
  · have hknows : reg.Knows bindings declared (.named n (a :: as))
        ↔ ∃ head, data? reg n (as.length + 1) = .ok head := by
      rw [exists_data?_iff]
      simp [Knows]
    rw [hknows, Entry.generics, List.append_nil, Entry.parts, ← exists_mapM_iff]
    simp only [resolveEntry_named_eq_ok_iff]
    constructor
    · rintro ⟨_, head, types, hd, htypes, rfl⟩
      exact ⟨⟨head, hd⟩, types, htypes⟩
    · rintro ⟨⟨head, hd⟩, types, htypes⟩
      exact ⟨_, head, types, hd, htypes, rfl⟩
  · rw [Entry.parts, List.forall_mem_cons, ← exists_mapM_iff, Entry.generics]
    simp only [resolveEntry_function_eq_ok_iff]
    constructor
    · rintro ⟨_, types, result, htypes, hresult, rfl⟩
      exact ⟨trivial, ⟨result, hresult⟩, types, htypes⟩
    · rintro ⟨_, ⟨result, hresult⟩, types, htypes⟩
      exact ⟨_, types, result, htypes, hresult, rfl⟩

theorem exists_resolveIn_iff {t : SourceType} :
    (∃ x, resolveIn reg bindings declared t = .ok x)
      ↔ t.EachIn fun scope e => reg.Knows bindings (declared ++ scope) e := by
  induction t using parts_induction generalizing declared with
  | of es ih =>
    have hentries : (∃ x, resolveIn reg bindings declared (.of es) = .ok x)
        ↔ ∀ e ∈ es, ∃ x, resolveEntry reg bindings declared e = .ok x := by
      rw [← exists_mapM_iff]
      simp only [resolveIn_eq_ok_iff]
      constructor
      · rintro ⟨_, types, htypes, _⟩
        exact ⟨types, htypes⟩
      · rintro ⟨types, htypes⟩
        exact ⟨_, types, htypes, rfl⟩
    rw [hentries, eachIn_of_iff]
    refine forall₂_congr fun e he => ?_
    rw [exists_resolveEntry_iff, List.append_nil]
    refine and_congr_right fun _ => forall₂_congr fun a ha => ?_
    rw [ih e he a ha]
    simp only [List.append_assoc]

/-! ### What a type resolves to is closed -/

theorem framed_closed (declared : List Name) :
    Framed fun scope e => RuntimeEntry.Closed (declared ++ scope) e where
  universal _ _ := rfl
  congr := by
    intro scope d e h hframe
    rcases d with ⟨n, as⟩ | ⟨t, ps, r⟩
    · rcases e with ⟨m, bs⟩ | ⟨u, qs, s⟩
      · obtain ⟨rfl, hlen⟩ := Prod.mk.inj (Sum.inl.inj hframe)
        cases n with
        | data n arity => exact hlen.trans h
        | generic n => exact h
      · cases hframe
    · trivial

theorem closed_resolveIn (hB : ∀ n u, bindings.find? n = some u → u.Closed) {t : SourceType}
    {x : RuntimeType} (h : resolveIn reg bindings declared t = .ok x) :
    x.EachIn fun scope e => RuntimeEntry.Closed (declared ++ scope) e := by
  induction t using parts_induction generalizing declared x with
  | of es ih =>
    obtain ⟨types, htypes, rfl⟩ := resolveIn_eq_ok_iff.1 h
    refine EachIn.unionAll (framed_closed declared) fun u hu => ?_
    obtain ⟨e, he, hr⟩ := exists_of_forall₂_right (mapM_eq_ok_iff.1 htypes) u hu
    rcases e with ⟨n, _ | ⟨a, as⟩⟩ | ⟨t, ps, r⟩
    · rw [resolveEntry] at hr
      split at hr
      · next hn =>
        obtain rfl := Except.ok.inj hr
        refine eachIn_single_iff.2 ⟨?_, List.forall_mem_nil _⟩
        exact List.mem_append_left _ (List.contains_iff_mem.1 hn)
      split at hr
      · next v hv =>
        obtain rfl := Except.ok.inj hr
        -- a closed type is closed inside functions too
        refine EachIn.imp (hB n v hv) fun scope e hclosed => ?_
        rcases e with ⟨_ | m, as⟩ | ⟨t, ps, r⟩
        · exact hclosed
        · exact List.mem_append_right _ hclosed
        · trivial
      · obtain ⟨head, hd, hr⟩ := bind_eq_ok_iff.1 hr
        obtain rfl := Except.ok.inj hr
        obtain rfl := eq_of_data? hd
        exact eachIn_single_iff.2 ⟨rfl, List.forall_mem_nil _⟩
    · obtain ⟨head, args, hd, hargs, rfl⟩ := resolveEntry_named_eq_ok_iff.1 hr
      obtain rfl := eq_of_data? hd
      have hargs := mapM_eq_ok_iff.1 hargs
      refine eachIn_single_iff.2 ⟨hargs.length_eq.symm, fun y hy => ?_⟩
      obtain ⟨b, hb, hby⟩ := exists_of_forall₂_right hargs y hy
      exact ih _ he b hb hby
    · obtain ⟨params, result, hps, hresult, rfl⟩ := resolveEntry_function_eq_ok_iff.1 hr
      have hin : ∀ b ∈ r :: ps, ∀ y, resolveIn reg bindings (declared ++ t.generics) b = .ok y →
          y.EachIn fun scope e => RuntimeEntry.Closed (declared ++ (t.generics ++ scope)) e := by
        intro b hb y hy
        have hclosed := ih _ he b hb hy
        simp only [List.append_assoc] at hclosed
        exact hclosed
      refine eachIn_single_iff.2 ⟨trivial, List.forall_mem_cons.2 ⟨?_, fun y hy => ?_⟩⟩
      · exact hin r (List.mem_cons_self ..) result hresult
      · obtain ⟨p, hp, hpy⟩ := exists_of_forall₂_right (mapM_eq_ok_iff.1 hps) y hy
        exact hin p (List.mem_cons_of_mem r hp) y hpy

/-- A type resolves exactly if each name in it, at every depth, is a generic that a
    function around it declares or a bound name, both without arguments, or a data
    type registered with as many arguments as it has there.  If the bound types are
    closed, so is what it resolves to. -/
theorem resolve_wellKinded (reg : Registry) (bindings : Bindings) (t : SourceType) :
    ((∃ type, reg.resolve t bindings = .ok type) ↔ reg.WellKinded bindings t)
      ∧ ∀ type, reg.resolve t bindings = .ok type →
        (∀ n u, bindings.find? n = some u → u.Closed) → type.Closed :=
  ⟨exists_resolveIn_iff, fun _ h hB => closed_resolveIn hB h⟩

/-- `U` means something inside the function that declares it.  Outside it does not,
    even where the universal type absorbs it. -/
theorem resolve_wellKinded_generic :
    let bindings : Bindings := .ofList
      [(['T'], .named (.data TypeName.list 1) [.bare (.data TypeName.number 0)])]
    let generic : FunctionTraits := ⟨.either, false, false, [['U']]⟩
    let es : List SourceEntry := [.function generic [.bare ['U'], .bare ['T']]
      (.named TypeName.list [.bare ['U']]), .named ['T'] []]
    builtins.WellKinded bindings (.of es)
      ∧ (∃ type, builtins.resolve (.of es) bindings = .ok type ∧ type.Closed)
      ∧ ¬builtins.WellKinded bindings (.of (.universal :: .named ['U'] [] :: es)) := by
  intro bindings generic es
  have hB : ∀ n u, bindings.find? n = some u → u.Closed := by
    refine Table.forall_ofList (List.forall_mem_singleton.2 ?_)
    refine eachIn_single_iff.2 ⟨rfl, List.forall_mem_singleton.2 ?_⟩
    exact eachIn_single_iff.2 ⟨rfl, List.forall_mem_nil _⟩
  obtain ⟨hkinded, hclosed⟩ := resolve_wellKinded builtins bindings (.of es)
  obtain ⟨type, htype⟩ : ∃ type, builtins.resolve (.of es) bindings = .ok type :=
    isSome_toOption_iff.1 (by decide +kernel)
  refine ⟨hkinded.1 ⟨type, htype⟩, ⟨type, htype, hclosed type htype hB⟩, ?_⟩
  rw [← (resolve_wellKinded builtins bindings _).1, ← isSome_toOption_iff]
  decide +kernel

end Registry

end UnionTyping
