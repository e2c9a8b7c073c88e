/-
  UnionTyping/Proofs/Grammar/Parameters.lean
  ==========================================
  **Parameter lists** — what is read as a parameter list is balanced and
  canonical: its names are names, its types are canonical, and a variadic list
  ends with a list type.  A canonical list, written down with its types, is read
  as itself (`parseParameters_text`); so are a canonical type and a parameter
  (`types_read_back`).
-/
import UnionTyping.Grammar.Signature
import UnionTyping.Proofs.Grammar.TypeReadBack
import UnionTyping.Proofs.Tree.Equality

namespace UnionTyping

open Text

/-- Parameters that can be written. -/
structure CanonicalParameters (ps : List Parameter) (variadic : Bool) : Prop where
  names : ∀ p ∈ ps, isName p.name = true
  types : ∀ p ∈ ps, SourceType.Canonical p.type
  last : variadic = true → ∃ p, ps.getLast? = some p ∧ SourceType.isListType p.type = true

theorem CanonicalParameters.nil : CanonicalParameters [] false where
  names := List.forall_mem_nil _
  types := List.forall_mem_nil _
  last := nofun

theorem CanonicalParameters.singleton {p : Parameter} {variadic : Bool}
    (hn : isName p.name = true) (ht : SourceType.Canonical p.type)
    (hl : variadic = true → SourceType.isListType p.type = true) :
    CanonicalParameters [p] variadic where
  names := List.forall_mem_singleton.2 hn
  types := List.forall_mem_singleton.2 ht
  last hv := ⟨p, rfl, hl hv⟩

theorem CanonicalParameters.cons {p : Parameter} {ps : List Parameter} {variadic : Bool}
    (hn : isName p.name = true) (ht : SourceType.Canonical p.type)
    (h : CanonicalParameters ps variadic) : CanonicalParameters (p :: ps) variadic where
  names := List.forall_mem_cons.2 ⟨hn, h.names⟩
  types := List.forall_mem_cons.2 ⟨ht, h.types⟩
  last hv := by
    obtain ⟨q, hq, hl⟩ := h.last hv
    exact ⟨q, by rw [List.getLast?_cons, hq]; rfl, hl⟩

/-! ### Readable parameters -/

theorem eq_of_splitOnce? {c : Char} {t l r : Text} (h : splitOnce? c t = some (l, r)) :
    t = l ++ c :: r := by
  have ht : t = t.takeWhile (· != c) ++ t.dropWhile (· != c) :=
    List.takeWhile_append_dropWhile.symm
  unfold splitOnce? at h
  split at h
  · cases h
  · next d rest hd =>
    obtain ⟨rfl, rfl⟩ := Prod.mk.inj (Option.some.inj h)
    have hdc : d = c := by
      have h := List.head?_dropWhile_not (· != c) t
      rw [hd] at h
      simpa using h
    rw [hd, hdc] at ht
    exact ht

/-- A readable parameter is a name, or a name and a type around a colon. -/
theorem pieces_of_parameterParts {t : Text} {name : Name} {declared : Option SourceType}
    (h : parameterParts t = .ok (name, declared)) :
    isName name = true
      ∧ ((name = trim t ∧ declared = none)
        ∨ ∃ l r type, trim t = l ++ ':' :: r ∧ name = trim l ∧ parseType r = .ok type
          ∧ declared = some type) := by
  have hend {u : Text} {p : Name × Option SourceType}
      (h : (if isName p.1 then .ok (p.1, p.2) else .error (.reject u (.parameterName p.1)) :
        Except ParseError (Name × Option SourceType)) = .ok (name, declared)) :
      isName name = true ∧ p = (name, declared) := by
    split at h
    · next hname =>
      obtain rfl : p = (name, declared) := Except.ok.inj h
      exact ⟨hname, rfl⟩
    · cases h
  unfold parameterParts at h
  simp only at h
  split at h
  · next l r hs =>
    obtain ⟨type, htype, h⟩ := bind_eq_ok_iff.1 h
    obtain ⟨p, hp, h⟩ := bind_eq_ok_iff.1 h
    obtain rfl := Except.ok.inj hp
    obtain ⟨hname, he⟩ := hend h
    obtain ⟨rfl, rfl⟩ := Prod.mk.inj he
    exact ⟨hname, Or.inr ⟨l, r, type, eq_of_splitOnce? hs, rfl, htype, rfl⟩⟩
  · obtain ⟨p, hp, h⟩ := bind_eq_ok_iff.1 h
    obtain rfl := Except.ok.inj hp
    obtain ⟨hname, he⟩ := hend h
    obtain ⟨rfl, rfl⟩ := Prod.mk.inj he
    exact ⟨hname, Or.inl ⟨rfl, rfl⟩⟩

theorem eq_of_parameterParts {t : Text} {name : Name} {declared : Option SourceType}
    (h : parameterParts t = .ok (name, declared)) :
    isName name = true ∧ Sealed t ∧ ∀ type, declared = some type → SourceType.Canonical type := by
  obtain ⟨hname, ⟨rfl, rfl⟩ | ⟨l, r, type, ht, rfl, htype, rfl⟩⟩ := pieces_of_parameterParts h
  · exact ⟨hname, sealed_of_trim (sealed_of_isName hname), nofun⟩
  · refine ⟨hname, ?_, ?_⟩
    · apply sealed_of_trim
      rw [ht]
      have hcolon : Sealed [':'] := sealed_of_plain (by decide)
      exact (sealed_of_trim (sealed_of_isName hname)).append
        (hcolon.append (sealed_of_parseType htype))
    · intro u hu
      obtain rfl := Option.some.inj hu
      exact canonical_of_parseType htype

/-- The type of a parameter is the declared one, or `any`; a variadic one is a list. -/
theorem canonical_of_parameterType {item : Text} {variadic : Bool} {declared : Option SourceType}
    {type : SourceType} (h : parameterType item variadic declared = .ok type)
    (hd : ∀ u, declared = some u → SourceType.Canonical u) :
    SourceType.Canonical type ∧ (variadic = true → SourceType.isListType type = true) := by
  cases declared with
  | none =>
    obtain rfl := Except.ok.inj h
    cases variadic with
    | true => exact ⟨canonical_list canonical_any, fun _ => rfl⟩
    | false => exact ⟨canonical_any, nofun⟩
  | some u =>
    unfold parameterType at h
    simp only at h
    split at h
    · cases h
    · next hlist =>
      obtain rfl := Except.ok.inj h
      refine ⟨hd u rfl, ?_⟩
      rintro rfl
      simpa using hlist

/-- The dots of a variadic item and the blanks before them close nothing. -/
theorem sealed_of_splitVariadic {item stem : Text} {variadic : Bool}
    (hv : splitVariadic (trim item) = (stem, variadic))
    (h : Sealed (if variadic then trimEnd stem else stem)) : Sealed item := by
  apply sealed_of_trim
  rw [eq_of_splitVariadic hv]
  have hstem : Sealed stem := by
    cases variadic with
    | false => exact h
    | true =>
      obtain ⟨r, hr, hb⟩ := exists_eq_trimEnd_append stem
      rw [hr]
      exact h.append (sealed_of_blank hb)
  exact hstem.append (sealed_dots variadic)

/-- What one readable item says. -/
theorem eq_of_parameterItem {isLast : Bool} {item : Text} {p : Parameter} {variadic : Bool}
    (h : parameterItem isLast item = .ok (p, variadic)) :
    isName p.name = true ∧ Sealed item ∧ SourceType.Canonical p.type
      ∧ (variadic = true → isLast = true ∧ SourceType.isListType p.type = true) := by
  unfold parameterItem at h
  rcases hv : splitVariadic (trim item) with ⟨stem, v⟩
  rw [hv] at h
  simp only at h
  split at h
  · cases h
  next hlast =>
  obtain ⟨⟨name, declared⟩, hparts, h⟩ := bind_eq_ok_iff.1 h
  obtain ⟨type, htype, h⟩ := bind_eq_ok_iff.1 h
  obtain ⟨rfl, rfl⟩ := Prod.mk.inj (Except.ok.inj h)
  obtain ⟨hname, hsealed, hdeclared⟩ := eq_of_parameterParts hparts
  obtain ⟨hcanonical, hlist⟩ := canonical_of_parameterType htype hdeclared
  refine ⟨hname, sealed_of_splitVariadic hv hsealed, hcanonical, ?_⟩
  rintro rfl
  exact ⟨by simpa using hlast, hlist rfl⟩

theorem canonical_of_parameterItems {items : List Text} {ps : List Parameter} {variadic : Bool}
    (h : parameterItems items = .ok (ps, variadic)) :
    (∀ u ∈ items, Sealed u) ∧ CanonicalParameters ps variadic := by
  induction items generalizing ps variadic with
  | nil =>
    obtain ⟨rfl, rfl⟩ := Prod.mk.inj (Except.ok.inj h)
    exact ⟨List.forall_mem_nil _, .nil⟩
  | cons item items ih =>
    unfold parameterItems at h
    obtain ⟨⟨p, v⟩, hitem, hrest⟩ := bind_eq_ok_iff.1 h
    obtain ⟨hname, hsealed, htype, hlast⟩ := eq_of_parameterItem hitem
    simp only at hrest
    split at hrest
    · next hnil =>
      obtain ⟨rfl, rfl⟩ := Prod.mk.inj (Except.ok.inj hrest)
      obtain rfl := List.isEmpty_iff.1 hnil
      exact ⟨List.forall_mem_singleton.2 hsealed, .singleton hname htype fun hv => (hlast hv).2⟩
    · obtain ⟨⟨qs, v'⟩, hitems, hpair⟩ := bind_eq_ok_iff.1 hrest
      obtain ⟨rfl, rfl⟩ := Prod.mk.inj (Except.ok.inj hpair)
      obtain ⟨hs, hc⟩ := ih hitems
      exact ⟨List.forall_mem_cons.2 ⟨hsealed, hs⟩, .cons hname htype hc⟩

theorem balanced_of_parseParameters {t : Text} {ps : List Parameter} {variadic : Bool}
    (h : parseParameters t = .ok (ps, variadic)) : Balanced t :=
  balanced_of_commaItems (canonical_of_parameterItems h).1

theorem canonical_of_parseParameters {t : Text} {ps : List Parameter} {variadic : Bool}
    (h : parseParameters t = .ok (ps, variadic)) : CanonicalParameters ps variadic :=
  (canonical_of_parameterItems h).2

/-! ### Written parameters -/

/-- The text of a parameter list. -/
def parametersText (ps : List Parameter) (variadic : Bool) : Text :=
  [','].intercalate (ps.map Parameter.text) ++ if variadic then ['.', '.', '.'] else []

section

variable {p : Parameter}

theorem splitOnce?_append {c : Char} {l r : Text} (h : ∀ d ∈ l, d ≠ c) :
    splitOnce? c (l ++ c :: r) = some (l, r) := by
  have hl : ∀ d ∈ l, (d != c) = true := fun d hd => by simpa using h d hd
  have hdrop : (l ++ c :: r).dropWhile (· != c) = c :: r := by
    rw [List.dropWhile_append_of_pos hl, List.dropWhile_cons_of_neg (by simp)]
  have htake : (l ++ c :: r).takeWhile (· != c) = l := by
    rw [List.takeWhile_append_of_pos hl, List.takeWhile_cons_of_neg (by simp), List.append_nil]
  simp only [splitOnce?, hdrop, htake]

theorem enclosed_parameter (hn : isName p.name = true) (ht : SourceType.Canonical p.type) :
    Enclosed p.text := by
  apply Enclosed.of_append (head_of_isIdentifier (isIdentifier_of_isName hn))
  have h := (readsBack_type p.type ht).enclosed.last
  have hne := (readsBack_type p.type ht).enclosed.ne_nil
  rw [← List.singleton_append, List.getLast?_append_of_ne_nil _ hne]
  exact h

theorem parameterParts_text (hn : isName p.name = true) (ht : SourceType.Canonical p.type) :
    parameterParts p.text = .ok (p.name, some p.type) := by
  have hid := isIdentifier_of_isName hn
  have hsplit : splitOnce? ':' p.text = some (p.name, SourceType.text p.type) := by
    apply splitOnce?_append
    rintro c hc rfl
    exact absurd (isNameChar_of_mem_identifier hid ':' hc) (by decide)
  unfold parameterParts
  simp only [trim_eq_self (enclosed_parameter hn ht).trimmed, hsplit, parseType_text ht]
  exact if_pos (by rwa [trim_of_isIdentifier hid]) |>.trans (by rw [trim_of_isIdentifier hid]; rfl)

theorem parameterItem_text {isLast variadic : Bool} (hn : isName p.name = true)
    (ht : SourceType.Canonical p.type)
    (hv : variadic = true → isLast = true ∧ SourceType.isListType p.type = true) :
    parameterItem isLast (p.text ++ if variadic then ['.', '.', '.'] else [])
      = .ok (p, variadic) := by
  have henc := enclosed_parameter hn ht
  have htrim : trim (p.text ++ if variadic then ['.', '.', '.'] else [])
      = p.text ++ if variadic then ['.', '.', '.'] else [] := by
    apply trim_eq_self
    apply henc.trimmed.append
    apply Trimmed.of_forall
    cases variadic <;> decide
  have hstem : (if variadic then trimEnd p.text else p.text) = p.text := by
    rw [trimEnd_eq_self henc.trimmed.2, ite_self]
  have htype : parameterType p.text variadic (some p.type) = .ok p.type := by
    unfold parameterType
    simp only
    rw [if_neg]
    intro h
    rw [Bool.and_eq_true] at h
    have hl := (hv h.1).2
    simp [hl] at h
  have hlast : (variadic && !isLast) = false := by
    cases variadic with
    | false => rfl
    | true => simpa using (hv rfl).1
  unfold parameterItem
  simp only [htrim, splitVariadic_text variadic (Or.inr henc.last), hstem, hlast,
    parameterParts_text hn ht]
  show (do let type ← parameterType p.text variadic (some p.type); pure (⟨p.name, type⟩, variadic))
    = Except.ok (p, variadic)
  rw [htype]
  rfl

end

theorem intercalate_append_last {d : Char} {us : List Text} {u v : Text} :
    [d].intercalate (us ++ [u]) ++ v = [d].intercalate (us ++ [u ++ v]) := by
  induction us with
  | nil => simp
  | cons w us ih =>
    obtain ⟨x, xs, hx⟩ := List.exists_cons_of_ne_nil (l := us ++ [u]) (by simp)
    obtain ⟨y, ys, hy⟩ := List.exists_cons_of_ne_nil (l := us ++ [u ++ v]) (by simp)
    rw [List.cons_append, List.cons_append]
    rw [hx] at ih ⊢
    rw [hy] at ih ⊢
    rw [List.intercalate_cons_cons, List.intercalate_cons_cons, List.append_assoc, ih]

theorem parameterItems_text {qs : List Parameter} {p : Parameter} {variadic : Bool}
    (h : CanonicalParameters (qs ++ [p]) variadic) :
    parameterItems (qs.map Parameter.text ++ [p.text ++ if variadic then ['.', '.', '.'] else []])
      = .ok (qs ++ [p], variadic) := by
  induction qs with
  | nil =>
    have hn := h.names p (by simp)
    have ht := h.types p (by simp)
    have hv : variadic = true → true = true ∧ SourceType.isListType p.type = true := by
      intro hv
      obtain ⟨q, hq, hl⟩ := h.last hv
      obtain rfl := Option.some.inj hq
      exact ⟨rfl, hl⟩
    rw [List.map_nil, List.nil_append, parameterItems, List.isEmpty_nil,
      parameterItem_text hn ht hv]
    rfl
  | cons q qs ih =>
    have hrest : CanonicalParameters (qs ++ [p]) variadic := by
      refine ⟨fun x hx => h.names x (List.mem_cons_of_mem _ hx),
        fun x hx => h.types x (List.mem_cons_of_mem _ hx), ?_⟩
      intro hv
      obtain ⟨x, hx, hl⟩ := h.last hv
      rw [List.cons_append, List.getLast?_cons] at hx
      refine ⟨x, ?_, hl⟩
      rw [List.getLast?_append] at hx ⊢
      exact hx
    have hitem : parameterItem false (q.text ++ if false then ['.', '.', '.'] else [])
        = .ok (q, false) :=
      parameterItem_text (h.names q (by simp)) (h.types q (by simp)) (fun hv => by cases hv)
    have hempty : (qs.map Parameter.text
        ++ [p.text ++ if variadic then ['.', '.', '.'] else []]).isEmpty = false := by simp
    rw [List.map_cons, List.cons_append, parameterItems, hempty]
    rw [if_neg (by decide), List.append_nil] at hitem
    rw [hitem, ih hrest]
    rfl

/-- A canonical parameter list is read as itself. -/
theorem parseParameters_text {ps : List Parameter} {variadic : Bool}
    (h : CanonicalParameters ps variadic) :
    Balanced (parametersText ps variadic)
      ∧ parseParameters (parametersText ps variadic) = .ok (ps, variadic) := by
  rcases List.eq_nil_or_concat ps with rfl | ⟨qs, p, rfl⟩
  · cases variadic with
    | true =>
      obtain ⟨p, hp, _⟩ := h.last rfl
      cases hp
    | false => exact ⟨balanced_nil, rfl⟩
  · rw [List.concat_eq_append] at h ⊢
    have henc : ∀ q ∈ qs ++ [p], Enclosed q.text :=
      fun q hq => enclosed_parameter (h.names q hq) (h.types q hq)
    have hsealed : ∀ q ∈ qs ++ [p], Sealed q.text := by
      intro q hq
      exact (eq_of_parameterParts (parameterParts_text (h.names q hq) (h.types q hq))).2.1
    have hitems : ∀ u ∈ qs.map Parameter.text
        ++ [p.text ++ if variadic then ['.', '.', '.'] else []], Sealed u ∧ ¬Blank u := by
      intro u hu
      rcases List.mem_append.1 hu with hu | hu
      · obtain ⟨q, hq, rfl⟩ := List.mem_map.1 hu
        have hq' := List.mem_append_left [p] hq
        exact ⟨hsealed q hq', (henc q hq').not_blank⟩
      · rw [List.mem_singleton.1 hu]
        have hp := List.mem_append_right qs (List.mem_singleton_self p)
        refine ⟨(hsealed p hp).append (sealed_dots variadic), ?_⟩
        intro hb
        exact (henc p hp).not_blank hb.of_append.1
    have htext : parametersText (qs ++ [p]) variadic
        = [','].intercalate (qs.map Parameter.text
          ++ [p.text ++ if variadic then ['.', '.', '.'] else []]) := by
      rw [parametersText, List.map_append, List.map_singleton, intercalate_append_last]
    rw [htext]
    refine ⟨balanced_intercalate (by decide) fun u hu => (hitems u hu).1, ?_⟩
    rw [parseParameters, commaItems_intercalate hitems]
    exact parameterItems_text h

/-! ### What is written is read back -/

theorem parseParameter_text {p : Parameter} (hn : isName p.name = true)
    (ht : SourceType.Canonical p.type) : parseParameter p.text = .ok p :=
  bind_eq_ok_iff.2 ⟨_, parameterParts_text hn ht, rfl⟩

/-- The text of a canonical type is read as a type that is equal to it and has the
    same text, a parameter with such a type as itself; what is read as a type is
    canonical. -/
theorem types_read_back :
    (∀ t : SourceType, SourceType.Canonical t →
        ∃ u, parseType (SourceType.text t) = .ok u ∧ (u == t) = true
          ∧ SourceType.text u = SourceType.text t)
      ∧ (∀ p : Parameter, isName p.name = true → SourceType.Canonical p.type →
        parseParameter p.text = .ok p)
      ∧ ∀ (text : Text) (t : SourceType), parseType text = .ok t → SourceType.Canonical t := by
  refine ⟨?_, fun p hn ht => parseParameter_text hn ht, fun text t h => canonical_of_parseType h⟩
  intro t ht
  exact ⟨t, parseType_text ht, UnionType.beq_refl t, rfl⟩

/-- A union as the result of a function of which a list is taken, under a name. -/
theorem types_read_back_function :
    ∃ p : Parameter,
      p.text = "f:list[pure[T](list[T[]],any[]...)!=>(number[]|string[])]".toList
        ∧ isName p.name = true ∧ SourceType.Canonical p.type
        ∧ (∃ u, parseType (SourceType.text p.type) = .ok u ∧ (u == p.type) = true
          ∧ SourceType.text u = SourceType.text p.type)
        ∧ parseParameter p.text = .ok p := by
  let result : SourceType := SourceType.number.union SourceType.string
  let t : SourceType := .single (.function ⟨.own, true, true, [['T']]⟩
    [SourceType.list (.bare ['T']), .any] result)
  have hresult : SourceType.Canonical result :=
    canonical_union _ (canonical_named (by decide) fun a ha => by cases ha) _
      (canonical_named (by decide) fun a ha => by cases ha)
  have ht : SourceType.Canonical t := by
    apply canonical_single
    unfold SourceEntry.Canonical
    refine ⟨by decide, fun _ => by simp, SourceType.allCanonical_iff.2 ?_, hresult⟩
    refine List.forall_mem_cons.2 ⟨canonical_list ?_, List.forall_mem_singleton.2 canonical_any⟩
    exact canonical_named (by decide) fun a ha => by cases ha
  let p : Parameter := ⟨['f'], SourceType.list t⟩
  exact ⟨p, by decide +kernel, by decide, canonical_list ht,
    types_read_back.1 _ (canonical_list ht), types_read_back.2.1 p (by decide) (canonical_list ht)⟩

/-! ### What is no list of parameters is rejected -/

theorem rejects_parameterParts (t : Text) : Rejects (parameterParts t) := by
  have hname (u : Text) (p : Name × Option SourceType) :
      Rejects (if isName p.1 then .ok (p.1, p.2) else .error (.reject u (.parameterName p.1)) :
        Except ParseError (Name × Option SourceType)) := by
    split
    · exact rejects_ok _
    · exact rejects_reject _ _
  unfold parameterParts
  simp only
  split
  · refine rejects_bind (rejects_parseType _) fun type => ?_
    exact rejects_bind (rejects_ok _) (hname _)
  · exact rejects_bind (rejects_ok _) (hname _)

theorem rejects_parameterType (item : Text) (variadic : Bool) (declared : Option SourceType) :
    Rejects (parameterType item variadic declared) := by
  cases declared with
  | none => exact rejects_ok _
  | some t =>
    simp only [parameterType]
    split
    · exact rejects_reject _ _
    · exact rejects_ok _

theorem rejects_parameterItem (isLast : Bool) (item : Text) :
    Rejects (parameterItem isLast item) := by
  unfold parameterItem
  simp only
  split
  · exact rejects_reject _ _
  · refine rejects_bind (rejects_parameterParts _) fun parts => ?_
    exact rejects_bind (rejects_parameterType _ _ _) fun type => rejects_ok _

theorem rejects_parseParameters (t : Text) : Rejects (parseParameters t) := by
  unfold parseParameters
  induction commaItems t with
  | nil => exact rejects_ok _
  | cons item items ih =>
    refine rejects_bind (rejects_parameterItem _ _) fun first => ?_
    simp only
    split
    · exact rejects_ok _
    · exact rejects_bind ih fun others => rejects_ok _

end UnionTyping
