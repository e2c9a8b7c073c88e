/-
  UnionTyping/Proofs/Tree/Matching.lean
  =====================================
  **Typing does not see the order of entries** — matching trees, with types that
  match in the same places, have matching types in environments that match, or no
  type in either (`agree_typeOf`).  Typing goes through the entries of a callee and of
  a parent one by one, so that two runs meet them in different orders and may stop at
  different errors.  An error is therefore only compared with an error.

  Matching trees are equal, and equal trees match if the types in them are normal.
-/
import UnionTyping.Proofs.Tree.TypeInvariants
import UnionTyping.Proofs.Types.Matching

namespace UnionTyping

open UnionType Typing

/-! ### Matching trees -/

/-- Heads that agree but for the types inside, which match. -/
structure LambdaHead.Matches (h k : LambdaHead) : Prop where
  generics : h.generics = k.generics
  params : List.Forall₂ (fun p q => p.name = q.name ∧ p.type.Matches q.type) h.params k.params
  result : h.result.Matches k.result
  explicit : h.explicit = k.explicit
  ownScope : h.ownScope = k.ownScope
  isPure : h.isPure = k.isPure
  variadic : h.variadic = k.variadic

mutual

/-- Trees that agree but for numbers that are equal and types that match. -/
inductive Node.Matches : Node → Node → Prop
  | number {x y : Double} : x.same y = true → Node.Matches (.number x) (.number y)
  | string (t : Text) : Node.Matches (.string t) (.string t)
  | reference (x : Name) : Node.Matches (.reference x) (.reference x)
  | list {es fs : List Node} : List.Forall₂ Node.Matches es fs → Node.Matches (.list es) (.list fs)
  | lambda {h k : LambdaHead} {ns ms : List Node} :
      h.Matches k → List.Forall₂ Node.Matches ns ms → Node.Matches (.lambda h ns) (.lambda k ms)
  | var (x : Name) : Node.Matches (.var x) (.var x)
  | call {f g : Node} {as bs : List Node} {ts us : List SourceType} :
      Node.Matches f g → List.Forall₂ Node.Matches as bs → List.Forall₂ UnionType.Matches ts us →
      Node.Matches (.call f as ts) (.call g bs us)
  | member {p q : Node} (m : Name) : Node.Matches p q → Node.Matches (.member p m) (.member q m)
  | declaration (constant : Bool) (x : Name) {declared declared' : Option SourceType}
      {t u : SourceType} {v w : Node} :
      Option.Rel UnionType.Matches declared declared' → t.Matches u → Node.Matches v w →
      Node.Matches (.declaration constant x declared t v) (.declaration constant x declared' u w)
  | assignment {t u : Target} {v w : Node} :
      Target.Matches t u → Node.Matches v w → Node.Matches (.assignment t v) (.assignment u w)
  | giveBack : Node.Matches (.ret none) (.ret none)
  | giveValue {v w : Node} : Node.Matches v w → Node.Matches (.ret (some v)) (.ret (some w))
  | invalid (t fragment reason : Text) :
      Node.Matches (.invalid t fragment reason) (.invalid t fragment reason)

inductive Target.Matches : Target → Target → Prop
  | var (x : Name) : Target.Matches (.var x) (.var x)
  | dereference (x : Name) : Target.Matches (.dereference x) (.dereference x)
  | member {p q : Node} (m : Name) : Node.Matches p q → Target.Matches (.member p m) (.member q m)

end

theorem Node.Matches.isInvalid_eq {n m : Node} (h : n.Matches m) : n.isInvalid = m.isInvalid := by
  cases h <;> rfl

/-! ### Matching trees are equal -/

theorem Node.sameDeclared_iff_rel {o o' : Option SourceType} :
    Node.sameDeclared o o' = true ↔ Option.Rel (fun t u => (t == u) = true) o o' := by
  constructor
  · intro h
    cases o with
    | none =>
      cases o' with
      | none => exact .none
      | some u => cases h
    | some t =>
      cases o' with
      | none => cases h
      | some u => exact .some h
  · intro h
    cases h with
    | some h => exact h
    | none => rfl

theorem Node.sameDeclared_of_rel {o o' : Option SourceType}
    (h : Option.Rel UnionType.Matches o o') : Node.sameDeclared o o' = true := by
  rw [Node.sameDeclared_iff_rel]
  cases h with
  | none => exact .none
  | some h => exact .some h.beq

theorem LambdaHead.sameParams_iff {ps qs : List Parameter} :
    sameParams ps qs = true ↔ List.Forall₂ (fun p q => p.same q = true) ps qs := by
  induction ps generalizing qs with
  | nil => cases qs <;> simp [sameParams]
  | cons p ps ih => cases qs <;> simp [sameParams, ih]

theorem LambdaHead.Matches.same {h k : LambdaHead} (hk : h.Matches k) : h.same k = true := by
  have hparams : sameParams h.params k.params = true :=
    sameParams_iff.2 (hk.params.imp fun p q hpq => by
      rw [Parameter.same, hpq.1, hpq.2.beq, BEq.rfl, Bool.and_self])
  simp [LambdaHead.same, hk.generics, hparams, hk.result.beq, hk.explicit, hk.ownScope, hk.isPure,
    hk.variadic]

mutual

theorem Node.Matches.same : {n m : Node} → n.Matches m → n.same m = true
  | _, _, .number h => by rw [Node.same, h]
  | _, _, .string _ | _, _, .reference _ | _, _, .var _ | _, _, .giveBack | _, _, .invalid .. => by
    simp [Node.same]
  | _, _, .list h => by rw [Node.same, Node.sameAll_of_forall₂ h]
  | _, _, .lambda hk h => by simp [Node.same, hk.same, Node.sameAll_of_forall₂ h]
  | _, _, .call hf has hts => by
    simp [Node.same, hf.same, Node.sameAll_of_forall₂ has, (forall₂_matches_iff.1 hts).1]
  | _, _, .member m h => by simp [Node.same, h.same]
  | _, _, .declaration c x hd ht hv => by
    simp [Node.same, Node.sameDeclared_of_rel hd, hv.same, ht.beq]
  | _, _, .assignment ht hv => by simp [Node.same, ht.same, hv.same]
  | _, _, .giveValue h => by rw [Node.same, h.same]

theorem Target.Matches.same : {t u : Target} → t.Matches u → t.same u = true
  | _, _, .var _ | _, _, .dereference _ => by simp [Target.same]
  | _, _, .member m h => by simp [Target.same, h.same]

theorem Node.sameAll_of_forall₂ : {ns ms : List Node} → List.Forall₂ Node.Matches ns ms →
    Node.sameAll ns ms = true
  | _, _, .nil => by simp [Node.sameAll]
  | _, _, .cons h hs => by rw [Node.sameAll, h.same, Node.sameAll_of_forall₂ hs, Bool.and_self]

end

/-! ### Equal trees with normal types match -/

theorem LambdaHead.forall₂_of_sameParams {ps qs : List Parameter} (h : sameParams ps qs = true)
    (hps : ∀ p ∈ ps, p.type.Normal) (hqs : ∀ q ∈ qs, q.type.Normal) :
    List.Forall₂ (fun p q => p.name = q.name ∧ p.type.Matches q.type) ps qs := by
  rw [sameParams_iff] at h
  induction h with
  | nil => exact .nil
  | cons hpq _ ih =>
    rw [List.forall_mem_cons] at hps hqs
    rw [Parameter.same, Bool.and_eq_true, beq_iff_eq] at hpq
    exact .cons ⟨hpq.1, hps.1, hqs.1, hpq.2⟩ (ih hps.2 hqs.2)

theorem LambdaHead.matches_of_same {h k : LambdaHead} (hsame : h.same k = true)
    (hh : ∀ t ∈ h.types, t.Normal) (hk : ∀ t ∈ k.types, t.Normal) : h.Matches k := by
  rw [types, List.forall_mem_cons, List.forall_mem_map] at hh hk
  simp only [LambdaHead.same, Bool.and_eq_true, beq_iff_eq] at hsame
  obtain ⟨⟨⟨⟨⟨⟨hgenerics, hparams⟩, hresult⟩, hexplicit⟩, hown⟩, hpure⟩, hvariadic⟩ := hsame
  exact ⟨hgenerics, forall₂_of_sameParams hparams hh.2 hk.2, ⟨hh.1, hk.1, hresult⟩, hexplicit, hown,
    hpure, hvariadic⟩

theorem Node.rel_of_sameDeclared {o o' : Option SourceType} (h : Node.sameDeclared o o' = true)
    (ho : ∀ t ∈ o.toList, t.Normal) (ho' : ∀ t ∈ o'.toList, t.Normal) :
    Option.Rel UnionType.Matches o o' := by
  rw [Node.sameDeclared_iff_rel] at h
  cases h with
  | none => exact .none
  | some h =>
    exact .some ⟨ho _ (List.mem_singleton_self _), ho' _ (List.mem_singleton_self _), h⟩

-- by recursion on the first tree; a second tree of another kind is not equal to it
mutual

theorem Node.matches_of_same : (n : Node) → {m : Node} → n.same m = true → n.Each Settled →
    m.Each Settled → n.Matches m
  | .number x, m, h, _, _ => by
    cases m with
    | number y => exact .number (by rwa [Node.same] at h)
    | _ => simp [Node.same] at h
  | .string t, m, h, _, _ => by
    cases m with
    | string u =>
      obtain rfl : t = u := by simpa [Node.same] using h
      exact .string t
    | _ => simp [Node.same] at h
  | .reference x, m, h, _, _ => by
    cases m with
    | reference y =>
      obtain rfl : x = y := by simpa [Node.same] using h
      exact .reference x
    | _ => simp [Node.same] at h
  | .var x, m, h, _, _ => by
    cases m with
    | var y =>
      obtain rfl : x = y := by simpa [Node.same] using h
      exact .var x
    | _ => simp [Node.same] at h
  | .list es, m, h, hn, hm => by
    cases m with
    | list fs =>
      rw [Node.same] at h
      exact .list (Node.forall₂_of_sameAll es h hn hm)
    | _ => simp [Node.same] at h
  | .lambda k es, m, h, hn, hm => by
    cases m with
    | lambda k' fs =>
      rw [Node.same, Bool.and_eq_true] at h
      rw [Node.Each, Node.types, List.forall_mem_append] at hn hm
      exact .lambda (LambdaHead.matches_of_same h.1 hn.1 hm.1)
        (Node.forall₂_of_sameAll es h.2 hn.2 hm.2)
    | _ => simp [Node.same] at h
  | .call f as ts, m, h, hn, hm => by
    cases m with
    | call g bs us =>
      rw [Node.same, Bool.and_eq_true, Bool.and_eq_true] at h
      rw [Node.Each, Node.types, List.forall_mem_append, List.forall_mem_append] at hn hm
      exact .call (f.matches_of_same h.1.1 hn.1.1 hm.1.1)
        (Node.forall₂_of_sameAll as h.1.2 hn.2 hm.2)
        (forall₂_matches_iff.2 ⟨h.2, hn.1.2, hm.1.2⟩)
    | _ => simp [Node.same] at h
  | .member p x, m, h, hn, hm => by
    cases m with
    | member q y =>
      rw [Node.same, Bool.and_eq_true, beq_iff_eq] at h
      obtain ⟨h, rfl⟩ := h
      exact .member x (p.matches_of_same h hn hm)
    | _ => simp [Node.same] at h
  | .declaration c x declared t v, m, h, hn, hm => by
    cases m with
    | declaration c' y declared' u w =>
      simp only [Node.same, Bool.and_eq_true, beq_iff_eq] at h
      obtain ⟨⟨⟨⟨rfl, rfl⟩, hd⟩, ht⟩, hv⟩ := h
      rw [Node.Each, Node.types, List.forall_mem_append, List.forall_mem_cons] at hn hm
      exact .declaration c x (Node.rel_of_sameDeclared hd hn.1 hm.1) ⟨hn.2.1, hm.2.1, ht⟩
        (v.matches_of_same hv hn.2.2 hm.2.2)
    | _ => simp [Node.same] at h
  | .assignment t v, m, h, hn, hm => by
    cases m with
    | assignment u w =>
      rw [Node.same, Bool.and_eq_true] at h
      rw [Node.Each, Node.types, List.forall_mem_append] at hn hm
      exact .assignment (t.matches_of_same h.1 hn.1 hm.1) (v.matches_of_same h.2 hn.2 hm.2)
    | _ => simp [Node.same] at h
  | .ret none, m, h, _, _ => by
    cases m with
    | ret w =>
      cases w with
      | none => exact .giveBack
      | some => simp [Node.same] at h
    | _ => simp [Node.same] at h
  | .ret (some v), m, h, hn, hm => by
    cases m with
    | ret w =>
      cases w with
      | none => simp [Node.same] at h
      | some w =>
        rw [Node.same] at h
        exact .giveValue (v.matches_of_same h hn hm)
    | _ => simp [Node.same] at h
  | .invalid t fragment reason, m, h, _, _ => by
    cases m with
    | invalid t' fragment' reason' =>
      simp only [Node.same, Bool.and_eq_true, beq_iff_eq] at h
      obtain ⟨⟨rfl, rfl⟩, rfl⟩ := h
      exact .invalid t fragment reason
    | _ => simp [Node.same] at h

theorem Target.matches_of_same : (t : Target) → {u : Target} → t.same u = true →
    (∀ a ∈ t.types, a.Each Settled) → (∀ a ∈ u.types, a.Each Settled) → t.Matches u
  | .var x, u, h, _, _ => by
    cases u with
    | var y =>
      obtain rfl : x = y := by simpa [Target.same] using h
      exact .var x
    | _ => simp [Target.same] at h
  | .dereference x, u, h, _, _ => by
    cases u with
    | dereference y =>
      obtain rfl : x = y := by simpa [Target.same] using h
      exact .dereference x
    | _ => simp [Target.same] at h
  | .member p x, u, h, ht, hu => by
    cases u with
    | member q y =>
      rw [Target.same, Bool.and_eq_true, beq_iff_eq] at h
      obtain ⟨h, rfl⟩ := h
      exact .member x (p.matches_of_same h ht hu)
    | _ => simp [Target.same] at h

theorem Node.forall₂_of_sameAll : (ns : List Node) → {ms : List Node} →
    Node.sameAll ns ms = true → (∀ t ∈ Node.typesAll ns, t.Each Settled) →
    (∀ t ∈ Node.typesAll ms, t.Each Settled) → List.Forall₂ Node.Matches ns ms
  | [], ms, h, _, _ => by
    cases ms with
    | nil => exact .nil
    | cons => simp [Node.sameAll] at h
  | n :: ns, ms, h, hns, hms => by
    cases ms with
    | nil => simp [Node.sameAll] at h
    | cons m ms =>
      rw [Node.sameAll, Bool.and_eq_true] at h
      rw [Node.typesAll, List.forall_mem_append] at hns hms
      exact .cons (n.matches_of_same h.1 hns.1 hms.1) (Node.forall₂_of_sameAll ns h.2 hns.2 hms.2)

end

/-! ### Matching environments -/

/-- The same variables and members, with types that match. -/
structure TypeEnv.Matches (env env' : TypeEnv) : Prop where
  bindings : env.bindings.Related UnionType.Matches env'.bindings
  members : env.members.Related UnionType.Matches env'.members

theorem TypeEnv.Matches.insert {env env' : TypeEnv} (h : env.Matches env') (x : Name)
    {t u : SourceType} (ht : t.Matches u) : (env.insert x t).Matches (env'.insert x u) :=
  ⟨h.bindings.insert x ht, h.members⟩

/-! ### The cases of typing -/

namespace Typing

/-- Both are errors, or both have values that are related by `Q`. -/
def Agree {α β : Type} (Q : α → β → Prop) (x : Typing α) (y : Typing β) : Prop :=
  Corresponds (fun _ _ => True) Q x.result y.result

section

variable {α β γ δ : Type} {Q : α → β → Prop} {R : γ → δ → Prop}

theorem agree_pure {a : α} {b : β} (h : Q a b) : Agree Q (pure a) (pure b) := h

theorem agree_fail (e e' : TypeError) : Agree Q (Traced.fail e) (Traced.fail e') := trivial

theorem agree_bind {x : Typing α} {y : Typing β} {f : α → Typing γ} {g : β → Typing δ}
    (h : Agree Q x y) (hfg : ∀ a b, Q a b → Agree R (f a) (g b)) :
    Agree R (x >>= f) (y >>= g) := by
  rw [Agree, Traced.result_bind, Traced.result_bind]
  exact corresponds_bind h hfg

theorem agree_mapM {as : List α} {bs : List β} (h : Partners Q as bs) {f : α → Typing γ}
    {g : β → Typing δ} (hfg : ∀ a b, Q a b → Agree R (f a) (g b)) :
    Agree (Partners R) (as.mapM f) (bs.mapM g) := by
  rw [Agree, Traced.result_mapM, Traced.result_mapM]
  exact h.corresponds_mapM hfg

end

section

variable {env env' : TypeEnv}

theorem agree_lookup {o o' : Option SourceType} (e e' : TypeError) :
    Option.Rel UnionType.Matches o o' →
      Agree UnionType.Matches (match o with | some t => pure t | none => Traced.fail e)
        (match o' with | some t => pure t | none => Traced.fail e')
  | .some ht => agree_pure ht
  | .none => agree_fail e e'

theorem agree_ofVariable (henv : env.Matches env') (x : Name) :
    Agree UnionType.Matches (ofVariable env x) (ofVariable env' x) :=
  agree_lookup _ _ (henv.bindings x)

theorem matches_any : (UnionType.any : SourceType).Matches .any :=
  SourceType.matches_bare TypeName.any

theorem agree_dereferenced (henv : env.Matches env') (x : Name) (node node' : Text) :
    Agree UnionType.Matches (dereferenced env x node) (dereferenced env' x node') := by
  refine agree_bind (agree_ofVariable henv x) fun t u htu => ?_
  rw [htu.isAny_eq]
  split
  · exact agree_pure matches_any
  have hsingle := htu.single?
  generalize t.single? = o at hsingle ⊢
  generalize u.single? = o' at hsingle ⊢
  cases hsingle with
  | none => exact agree_fail _ _
  | some hde =>
    cases hde with
    | function => exact agree_fail _ _
    | named h hargs =>
      rcases hargs with _ | ⟨hab, _ | _⟩
      · exact agree_fail _ _
      · simp only
        split
        · exact agree_pure hab
        · exact agree_fail _ _
      · exact agree_fail _ _

theorem agree_memberType (henv : env.Matches env') {parent parent' : SourceType}
    (h : parent.Matches parent') (m : Name) (node node' : Text) :
    Agree UnionType.Matches (memberType env parent m node) (memberType env' parent' m node') := by
  rw [memberType, memberType, h.isAny_eq]
  split
  · exact agree_pure matches_any
  refine agree_bind (agree_mapM (R := UnionType.Matches) h.partners fun d e hde => ?_)
    fun ts us htus => ?_
  · have hname : SourceEntry.name d = SourceEntry.name e := by cases hde <;> rfl
    rw [hname]
    exact agree_lookup _ _ (henv.members (SourceEntry.name e, m))
  · have hunion := SourceType.matches_unionAll htus
    simp only [hunion.isBase_eq]
    split
    · exact agree_fail _ _
    · exact agree_pure hunion

end

theorem matches_listOf {ts us : List SourceType} (h : List.Forall₂ UnionType.Matches ts us) :
    (listOf ts).Matches (listOf us) := by
  cases h with
  | nil => exact SourceType.matches_named _ matches_any
  | cons ht hts =>
    have hunion := SourceType.matches_unionAll (partners_of_forall₂ (.cons ht hts))
    exact SourceType.matches_named _ hunion

theorem matches_lambda {h k : LambdaHead} (hk : h.Matches k) : h.type.Matches k.type := by
  rw [LambdaHead.type, LambdaHead.type, LambdaHead.scope, LambdaHead.scope, hk.ownScope, hk.isPure,
    hk.variadic, hk.generics]
  refine matches_single (.function _ ?_ hk.result)
  rw [List.forall₂_map_left_iff, List.forall₂_map_right_iff]
  exact hk.params.imp fun _ _ hpq => hpq.2

/-! ### Calls -/

section

variable {callee callee' : SourceType} {generics generics' arguments arguments' : List SourceType}
  (hgenerics : List.Forall₂ UnionType.Matches generics generics')
include hgenerics

theorem isEmpty_eq_of_matches : generics.isEmpty = generics'.isEmpty := by
  cases hgenerics <;> rfl

theorem infersGenerics_eq (hcallee : callee.Matches callee') :
    infersGenerics callee generics = infersGenerics callee' generics' := by
  rw [infersGenerics, infersGenerics, isEmpty_eq_of_matches hgenerics]
  refine congrArg (generics'.isEmpty && ·) (hcallee.partners.any_eq fun d e hde => ?_)
  cases hde <;> rfl

theorem agree_callEntry (harguments : List.Forall₂ UnionType.Matches arguments arguments')
    (node node' : Text) {d e : SourceEntry} (hde : d.Matches e) :
    Agree UnionType.Matches (callEntry callee generics arguments node d)
      (callEntry callee' generics' arguments' node' e) := by
  cases hde with
  | named => exact agree_fail _ _
  | @function t ps qs r s hps hr =>
    have happly {ts us : List SourceType} (h : List.Forall₂ UnionType.Matches ts us) :
        ((Substitution.ofBindings t.generics ts).apply r).Matches
          ((Substitution.ofBindings t.generics us).apply s) :=
      Substitution.matches_apply (Substitution.related_ofBindings t.generics h) hr
    rw [callEntry, callEntry, isEmpty_eq_of_matches hgenerics, hgenerics.length_eq]
    split
    · exact agree_fail _ _
    split
    · exact agree_pure hr
    simp only
    split
    · have hsolution := Generics.corresponds_assign t.generics hps hr harguments normal_base
      exact agree_bind hsolution fun ts us h => agree_pure (happly h)
    · exact agree_bind (agree_pure hgenerics) fun ts us h => agree_pure (happly h)

theorem agree_callResult (hcallee : callee.Matches callee')
    (harguments : List.Forall₂ UnionType.Matches arguments arguments') (node node' : Text) :
    Agree UnionType.Matches (callResult callee generics arguments node)
      (callResult callee' generics' arguments' node') := by
  refine agree_bind (agree_mapM (R := UnionType.Matches) hcallee.partners fun d e hde => ?_)
    fun ts us htus => ?_
  · exact agree_callEntry hgenerics harguments node node' hde
  · exact agree_pure (SourceType.matches_unionAll htus)

end

end Typing

/-! ### Nodes -/

section

variable {env env' : TypeEnv}

mutual

/-- Matching trees have matching types. -/
theorem agree_typeOf (henv : env.Matches env') : {n m : Node} → n.Matches m →
    Agree UnionType.Matches (typeOf env n) (typeOf env' m)
  | _, _, .number _ => by
    rw [typeOf, typeOf]
    exact agree_pure (SourceType.matches_bare _)
  | _, _, .string _ => by
    rw [typeOf]
    exact agree_pure (SourceType.matches_bare _)
  | _, _, .reference x => by
    rw [typeOf, typeOf]
    refine agree_bind (agree_ofVariable henv x) fun t u htu => ?_
    exact agree_pure (SourceType.matches_named _ htu)
  | _, _, .list h => by
    rw [typeOf, typeOf]
    exact agree_bind (agree_typesOf henv h) fun ts us htus => agree_pure (matches_listOf htus)
  | _, _, .lambda hk _ => by
    rw [typeOf, typeOf]
    exact agree_pure (matches_lambda hk)
  | _, _, .var x => by
    rw [typeOf, typeOf]
    exact agree_ofVariable henv x
  | _, _, .call hf has hts => by
    rw [typeOf, typeOf]
    refine agree_bind (agree_typeOf henv hf) fun callee callee' hcallee => ?_
    simp only [hcallee.isAny_eq, hcallee.isBase_eq, infersGenerics_eq hts hcallee]
    split
    · exact agree_pure matches_any
    split
    · exact agree_fail _ _
    -- arguments are typed only if they have to solve generics
    have hresult {as bs : List SourceType} (h : List.Forall₂ UnionType.Matches as bs) :=
      agree_callResult hts hcallee h
    split
    · exact agree_bind (agree_typesOf henv has) fun as bs h => hresult h _ _
    · exact hresult .nil _ _
  | _, _, .member m h => by
    rw [typeOf, typeOf]
    exact agree_bind (agree_typeOf henv h) fun p q hpq => agree_memberType henv hpq m _ _
  | _, _, .declaration _ _ _ ht _ => by
    rw [typeOf, typeOf]
    exact agree_pure ht
  | _, _, .assignment ht hv => by
    rw [typeOf, typeOf]
    exact agree_bind (agree_typeOfTarget henv ht _ _) fun _ _ _ => agree_typeOf henv hv
  | _, _, .giveBack => by
    rw [typeOf, typeOf]
    exact agree_pure (SourceType.matches_bare _)
  | _, _, .giveValue h => by
    rw [typeOf, typeOf]
    exact agree_typeOf henv h
  | _, _, .invalid .. => by
    rw [typeOf, typeOf]
    exact agree_fail _ _

theorem agree_typeOfTarget (henv : env.Matches env') : {t u : Target} → t.Matches u → ∀ node node',
    Agree UnionType.Matches (typeOfTarget env node t) (typeOfTarget env' node' u)
  | _, _, .var x, _, _ => by
    rw [typeOfTarget, typeOfTarget]
    exact agree_ofVariable henv x
  | _, _, .dereference x, _, _ => by
    rw [typeOfTarget, typeOfTarget]
    exact agree_dereferenced henv x _ _
  | _, _, .member m h, _, _ => by
    rw [typeOfTarget, typeOfTarget]
    exact agree_bind (agree_typeOf henv h) fun p q hpq => agree_memberType henv hpq m _ _

theorem agree_typesOf (henv : env.Matches env') : {ns ms : List Node} →
    List.Forall₂ Node.Matches ns ms →
    Agree (List.Forall₂ UnionType.Matches) (typesOf env ns) (typesOf env' ms)
  | _, _, .nil => by
    rw [typesOf, typesOf]
    exact agree_pure .nil
  | _, _, .cons h hs => by
    rw [typesOf, typesOf]
    refine agree_bind (agree_typeOf henv h) fun t u htu => ?_
    exact agree_bind (agree_typesOf henv hs) fun ts us htus => agree_pure (.cons htu htus)

end

end

end UnionTyping
