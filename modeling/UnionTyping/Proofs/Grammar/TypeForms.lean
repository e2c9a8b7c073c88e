/-
  UnionTyping/Proofs/Grammar/TypeForms.lean
  =========================================
  **The forms of a type** — a text that is read as a type has one of five forms
  (`TypeForm`), and the texts inside are shorter; hence an induction over
  readable types (`parseType_induction`).  It gives two facts about every
  readable type: its text is sealed, and the type is canonical.
-/
import UnionTyping.Grammar.Equations
import UnionTyping.Proofs.Grammar.Items
import UnionTyping.Proofs.Types.Canonical

namespace UnionTyping

open Text

/-! ### One step -/

/-- How the type of a trimmed text comes from its pieces; `R` relates the texts
    inside to their types. -/
inductive TypeForm (R : Text → SourceType → Prop) (t : Text) : SourceType → Prop
  | union {ts : List SourceType} :
      1 < (splitTop '|' t).length → List.Forall₂ R (splitTop '|' t) ts → TypeForm R t (.unionAll ts)
  | group {inner : Text} {type : SourceType} :
      unwrap? .round t = some inner → R inner type → TypeForm R t type
  | function {shape : FunctionShape} {generics : List Name} {params : Text} {variadic : Bool}
      {ps : List SourceType} {r : SourceType} :
      functionShape? t = some shape → genericNames shape.generics = .ok generics →
      splitVariadic (trim shape.params) = (params, variadic) →
      (variadic = true → ¬Blank params) →
      List.Forall₂ R (commaItems params) ps → R shape.result r →
      TypeForm R t (.single (.function ⟨shape.scope, shape.isPure, variadic, generics⟩ ps r))
  | bare : isIdentifier t = true → TypeForm R t (.bare t)
  | named {name blank inner : Text} {as : List SourceType} :
      t = name ++ (blank ++ '[' :: (inner ++ [']'])) → isIdentifier name = true → Blank blank →
      List.Forall₂ R (commaItems inner) as → TypeForm R t (.named name as)

theorem TypeForm.mono {R S : Text → SourceType → Prop} {t : Text} {type : SourceType}
    (h : TypeForm R t type) (hRS : ∀ u v, R u v → S u v) : TypeForm S t type := by
  cases h with
  | union hl hts => exact .union hl (hts.imp hRS)
  | group hu hr => exact .group hu (hRS _ _ hr)
  | function hs hg hv hb hps hr => exact .function hs hg hv hb (hps.imp hRS) (hRS _ _ hr)
  | bare hn => exact .bare hn
  | named ht hn hb has => exact .named ht hn hb (has.imp hRS)

theorem isIdentifier_takeWhile {t : Text}
    (h : ¬((t.takeWhile isNameChar).isEmpty || (t.takeWhile isNameChar).head?.any Char.isDigit)
      = true) : isIdentifier (t.takeWhile isNameChar) = true := by
  cases hn : t.takeWhile isNameChar with
  | nil => simp [hn] at h
  | cons c name =>
    have hall : ∀ d ∈ c :: name, isNameChar d = true := by
      intro d hd
      rw [← hn] at hd
      exact List.mem_takeWhile_imp hd
    have hc := hall c (List.mem_cons_self ..)
    have hd : c.isDigit = false := by simpa [hn] using h
    simp only [isIdentifier, Bool.and_eq_true, List.all_eq_true]
    refine ⟨?_, fun d hm => hall d (List.mem_cons_of_mem _ hm)⟩
    simpa [isNameStart, isNameChar, Char.isAlphanum, hd] using hc

section

variable {sub : Reader SourceType} {t : Text} {type : SourceType}

theorem functionWith_eq_ok_iff {shape : FunctionShape} :
    functionWith sub t shape = .ok type ↔
      ∃ generics params variadic ps r, genericNames shape.generics = .ok generics
        ∧ splitVariadic (trim shape.params) = (params, variadic)
        ∧ (variadic = true → ¬Blank params) ∧ (commaItems params).mapM sub = .ok ps
        ∧ sub shape.result = .ok r
        ∧ type = .single (.function ⟨shape.scope, shape.isPure, variadic, generics⟩ ps r) := by
  unfold functionWith
  rcases hv : splitVariadic (trim shape.params) with ⟨params, variadic⟩
  constructor
  · intro h
    obtain ⟨generics, hg, h⟩ := bind_eq_ok_iff.1 h
    simp only at h
    split at h
    · cases h
    · next hb =>
      obtain ⟨ps, hps, h⟩ := bind_eq_ok_iff.1 h
      obtain ⟨r, hr, h⟩ := bind_eq_ok_iff.1 h
      refine ⟨generics, params, variadic, ps, r, hg, rfl, ?_, hps, hr, (Except.ok.inj h).symm⟩
      intro hvar hblank
      rw [hvar, allBlank_iff.2 hblank] at hb
      exact hb rfl
  · rintro ⟨generics, params', variadic', ps, r, hg, he, hb, hps, hr, rfl⟩
    obtain ⟨rfl, rfl⟩ := Prod.mk.inj he
    refine bind_eq_ok_iff.2 ⟨generics, hg, ?_⟩
    simp only
    split
    · next hlone =>
      rw [Bool.and_eq_true, allBlank_iff] at hlone
      exact absurd hlone.2 (hb hlone.1)
    · exact bind_eq_ok_iff.2 ⟨ps, hps, bind_eq_ok_iff.2 ⟨r, hr, rfl⟩⟩

/-- The rest of a trimmed text is not blank, unless there is no rest. -/
theorem eq_nil_of_blank_suffix {l r : Text} (h : Trimmed (l ++ r)) (hr : Blank r) : r = [] := by
  by_contra hne
  have hl : (l ++ r).getLast? = some (r.getLast hne) := by
    rw [List.getLast?_append_of_ne_nil _ hne, List.getLast?_eq_some_getLast hne]
  have h₁ := h.2 _ hl
  rw [hr _ (List.getLast_mem hne)] at h₁
  cases h₁

theorem eq_of_namedWith (ht : Trimmed t) (h : namedWith sub t = .ok type) :
    (isIdentifier t = true ∧ type = .bare t)
      ∨ ∃ name blank inner as, t = name ++ (blank ++ '[' :: (inner ++ [']']))
        ∧ isIdentifier name = true ∧ Blank blank ∧ (commaItems inner).mapM sub = .ok as
        ∧ type = .named name as := by
  have hsplit : t = t.takeWhile isNameChar ++ t.dropWhile isNameChar :=
    List.takeWhile_append_dropWhile.symm
  obtain ⟨blank, hb, hbl⟩ := exists_eq_append_trimStart (t.dropWhile isNameChar)
  unfold namedWith at h
  simp only at h
  split at h
  · cases h
  · next hn =>
    have hid := isIdentifier_takeWhile hn
    split at h
    · next hrest =>
      rw [List.isEmpty_iff.1 hrest, List.append_nil] at hb
      rw [hsplit] at ht
      rw [eq_nil_of_blank_suffix ht (hb ▸ hbl), List.append_nil] at hsplit
      rw [← hsplit] at hid h
      exact Or.inl ⟨hid, (Except.ok.inj h).symm⟩
    · split at h
      · cases h
      · next inner hi =>
        obtain ⟨as, has, h⟩ := bind_eq_ok_iff.1 h
        refine Or.inr ⟨_, blank, inner, as, ?_, hid, hbl, has, (Except.ok.inj h).symm⟩
        have hgroup : trimStart (t.dropWhile isNameChar) = '[' :: (inner ++ [']']) :=
          eq_of_unwrap? hi
        rw [← hgroup, ← hb]
        exact hsplit

end

/-- A readable text has one of the forms, and the texts inside are shorter. -/
theorem typeForm_of_parseType {t : Text} {type : SourceType} (h : parseType t = .ok type) :
    TypeForm (fun u v => u.length < t.length ∧ parseType u = .ok v) (trim t) type := by
  have hlen := length_trim_le t
  rw [parseType_eq] at h
  unfold typeWith at h
  simp only at h
  split at h
  · cases h
  split at h
  · next hmany =>
    obtain ⟨ts, hts, he⟩ := bind_eq_ok_iff.1 h
    obtain rfl := Except.ok.inj he
    refine .union hmany ((List.forall₂_and_left _ _).2 ⟨?_, mapM_eq_ok_iff.1 hts⟩)
    intro u hu
    exact Nat.lt_of_lt_of_le (length_of_mem_splitTop_of_two hu hmany) hlen
  split at h
  · next inner hi =>
    have h₁ := length_of_unwrap? hi
    exact .group hi ⟨by omega, h⟩
  split at h
  · next shape hs =>
    have h₁ := length_of_functionShape? hs
    have h₂ := length_of_splitVariadic (trim shape.params)
    have h₃ := length_trim_le shape.params
    obtain ⟨generics, params, variadic, ps, r, hg, hv, hb, hps, hr, rfl⟩ :=
      functionWith_eq_ok_iff.1 h
    rw [hv] at h₂
    refine .function hs hg hv hb ((List.forall₂_and_left _ _).2 ⟨?_, mapM_eq_ok_iff.1 hps⟩)
      ⟨by omega, hr⟩
    intro u hu
    have h₄ := length_of_mem_commaItems hu
    simp only at h₂
    omega
  · rcases eq_of_namedWith (trimmed_trim t) h with ⟨hid, rfl⟩ |
      ⟨name, blank, inner, as, ht, hid, hb, has, rfl⟩
    · exact .bare hid
    · refine .named ht hid hb ((List.forall₂_and_left _ _).2 ⟨?_, mapM_eq_ok_iff.1 has⟩)
      intro u hu
      have h₁ := length_of_mem_commaItems hu
      have h₂ := congrArg List.length ht
      simp only [List.length_append, List.length_cons] at h₂
      omega

theorem parseType_trim (t : Text) : parseType (trim t) = parseType t := by
  rw [parseType_eq, parseType_eq (t := t), typeWith, typeWith, trim_trim]

/-- What holds of each form if it holds of the texts inside holds of every
    readable type. -/
theorem parseType_induction {P : Text → SourceType → Prop}
    (step : ∀ t type, TypeForm (fun u v => parseType u = .ok v ∧ P u v) (trim t) type → P t type)
    {t : Text} {type : SourceType} (h : parseType t = .ok type) : P t type := by
  induction t using parseType.induct generalizing type with
  | case1 t ih =>
    apply step
    refine (typeForm_of_parseType h).mono ?_
    rintro u v ⟨hl, hu⟩
    exact ⟨hu, ih u hl hu⟩

/-! ### Readable types are sealed -/

theorem exists_eq_append_splitPure (t : Text) :
    ∃ l, t = l ++ (splitPure t).2 ∧ Sealed l ∧ '=' ∉ l := by
  unfold splitPure
  split
  · exact ⟨[], rfl, sealed_nil, by simp⟩
  · next rest h =>
    simp only
    split
    · obtain ⟨blank, hb, hbl⟩ := exists_eq_append_trimStart rest
      refine ⟨['p', 'u', 'r', 'e'] ++ blank, ?_, ?_, ?_⟩
      · rw [List.append_assoc, ← hb]
        exact after?_eq_some_iff.1 h
      · exact (sealed_of_nameChars (by decide)).append (sealed_of_blank hbl)
      · intro hm
        rcases List.mem_append.1 hm with hm | hm
        · exact absurd hm (by decide)
        · exact absurd (hbl _ hm) (by decide)
    · exact ⟨[], rfl, sealed_nil, by simp⟩

theorem eq_of_splitGenerics? {t rest : Text} {generics : Option Text}
    (h : splitGenerics? t = some (generics, rest)) :
    (generics = none ∧ t = rest)
      ∨ ∃ inner blank, generics = some inner ∧ t = '[' :: (inner ++ [']']) ++ (blank ++ rest)
        ∧ Blank blank := by
  unfold splitGenerics? at h
  split at h
  · obtain ⟨⟨inner, r⟩, hg, he⟩ := Option.map_eq_some_iff.1 h
    obtain ⟨rfl, rfl⟩ := Prod.mk.inj he
    obtain ⟨blank, hb, hbl⟩ := exists_eq_append_trimStart r
    refine Or.inr ⟨inner, blank, rfl, ?_, hbl⟩
    rw [← hb]
    simpa [Bracket.opening, Bracket.closing] using (eq_of_group? hg).1
  · obtain ⟨rfl, rfl⟩ := Prod.mk.inj (Option.some.inj h)
    exact Or.inl ⟨rfl, rfl⟩

theorem isName_of_genericNames {inner : Text} {names : List Name}
    (h : genericNames (some inner) = .ok names) :
    List.Forall₂ (fun u n => trim u = n ∧ isName n = true) (commaItems inner) names := by
  refine (mapM_eq_ok_iff.1 h).imp ?_
  intro u n hn
  simp only at hn
  split at hn
  · next hname =>
    obtain rfl := Except.ok.inj hn
    exact ⟨rfl, hname⟩
  · cases hn

theorem isName_of_mem_genericNames {generics : Option Text} {names : List Name}
    (h : genericNames generics = .ok names) : ∀ n ∈ names, isName n = true := by
  cases generics with
  | none =>
    obtain rfl := Except.ok.inj h
    intro n hn
    cases hn
  | some inner =>
    intro n hn
    obtain ⟨u, _, _, hname⟩ := exists_of_forall₂_right (isName_of_genericNames h) n hn
    exact hname

/-- Readable generics and the blanks behind them are sealed. -/
theorem sealed_of_splitGenerics? {t rest : Text} {generics : Option Text} {names : List Name}
    (h : splitGenerics? t = some (generics, rest)) (hg : genericNames generics = .ok names) :
    ∃ l, t = l ++ rest ∧ Sealed l ∧ Avoids (· == '=') l := by
  rcases eq_of_splitGenerics? h with ⟨rfl, rfl⟩ | ⟨inner, blank, rfl, rfl, hb⟩
  · exact ⟨[], rfl, sealed_nil, avoids_of_forall fun c hc => by cases hc⟩
  · have hinner : Balanced inner := by
      apply balanced_of_commaItems
      intro u hu
      obtain ⟨n, _, hn, hname⟩ := exists_of_forall₂_left (isName_of_genericNames hg) u hu
      apply sealed_of_trim
      rw [hn]
      exact sealed_of_isName hname
    have hgroup : Sealed ('[' :: (inner ++ [']'])) := sealed_group (b := .square) hinner (by decide)
    have hblank : Avoids (· == '=') blank := by
      apply avoids_of_forall
      intro c hc
      simp only [beq_eq_false_iff_ne]
      rintro rfl
      exact absurd (hb _ hc) (by decide)
    refine ⟨'[' :: (inner ++ [']']) ++ blank, by rw [List.append_assoc],
      hgroup.append (sealed_of_blank hb), ?_⟩
    exact Avoids.append hgroup.toBalanced (avoids_group (b := .square) hinner (by decide)) hblank
      ((sealed_of_blank hb).fits _)

theorem eq_of_splitVariadic {t stem : Text} {variadic : Bool}
    (h : splitVariadic t = (stem, variadic)) :
    t = stem ++ if variadic then ['.', '.', '.'] else [] := by
  unfold splitVariadic at h
  split at h
  · next s hs =>
    obtain ⟨rfl, rfl⟩ := Prod.mk.inj h
    exact before?_eq_some_iff.1 hs
  · obtain ⟨rfl, rfl⟩ := Prod.mk.inj h
    simp

theorem sealed_dots (variadic : Bool) : Sealed (if variadic then ['.', '.', '.'] else []) := by
  apply sealed_of_plain
  cases variadic <;> decide

theorem eq_of_arrow? {t rest : Text} {mode : ScopeMode} (h : arrow? t = some (mode, rest)) :
    ∃ arrow, (arrow, mode) ∈ typeArrows ∧ t = arrow ++ rest := by
  obtain ⟨⟨arrow, m⟩, hm, h⟩ := List.exists_of_findSome?_eq_some h
  obtain ⟨r, hr, he⟩ := Option.map_eq_some_iff.1 h
  obtain ⟨rfl, rfl⟩ := Prod.mk.inj he
  exact ⟨arrow, hm, after?_eq_some_iff.1 hr⟩

theorem sealed_of_mem_typeArrows {arrow : Text} {mode : ScopeMode}
    (h : (arrow, mode) ∈ typeArrows) : Sealed arrow := by
  have hmark : Sealed ['!'] := sealed_of_plain (by decide)
  simp only [typeArrows, List.mem_cons, Prod.mk.injEq, List.not_mem_nil, or_false] at h
  rcases h with ⟨rfl, _⟩ | ⟨rfl, _⟩ | ⟨rfl, _⟩ | ⟨rfl, _⟩
  · exact hmark.append (sealed_arrow (Or.inr rfl))
  · exact hmark.append (sealed_arrow (Or.inl rfl))
  · exact sealed_arrow (Or.inr rfl)
  · exact sealed_arrow (Or.inl rfl)

theorem sealed_of_functionShape? {t : Text} {shape : FunctionShape} {names : List Name}
    (h : functionShape? t = some shape) (hg : genericNames shape.generics = .ok names)
    (hp : Balanced shape.params) (hr : Sealed shape.result) : Sealed t := by
  simp only [functionShape?, Option.bind_eq_bind, Option.bind_eq_some_iff, Prod.exists] at h
  obtain ⟨generics, rest, hs, params, tail, hgroup, mode, result, ha, h⟩ := h
  obtain rfl := Option.some.inj h
  obtain ⟨l₁, h₁, hl₁, _⟩ := exists_eq_append_splitPure t
  obtain ⟨l₂, h₂, hl₂, _⟩ := sealed_of_splitGenerics? hs hg
  obtain ⟨h₃, _⟩ := eq_of_group? hgroup
  obtain ⟨l₄, h₄, hl₄⟩ := exists_eq_append_trimStart tail
  obtain ⟨arrow, hm, h₅⟩ := eq_of_arrow? ha
  have ht : t = l₁ ++ (l₂ ++ (('(' :: (params ++ [')'])) ++ (l₄ ++ (arrow ++ result)))) := by
    rw [← h₅, ← h₄, h₁, h₂, h₃]
    simp [Bracket.opening, Bracket.closing]
  rw [ht]
  exact hl₁.append (hl₂.append ((sealed_group (b := .round) hp (by decide)).append
    ((sealed_of_blank hl₄).append ((sealed_of_mem_typeArrows hm).append hr))))

theorem sealed_intercalate_bar {ts : List Text} (h : ∀ t ∈ ts, Sealed t) :
    Sealed (['|'].intercalate ts) := by
  have hbar : Sealed ['|'] := sealed_of_plain (by decide)
  induction ts with
  | nil => exact sealed_nil
  | cons t ts ih =>
    have ht := h t (List.mem_cons_self ..)
    cases ts with
    | nil =>
      rw [List.intercalate_singleton]
      exact ht
    | cons u ts =>
      rw [List.intercalate_cons_cons]
      exact (ht.append hbar).append (ih fun v hv => h v (List.mem_cons_of_mem _ hv))

theorem sealed_of_typeForm {R : Text → SourceType → Prop} {t : Text} {type : SourceType}
    (hf : TypeForm R t type) (hR : ∀ u v, R u v → Sealed u) : Sealed t := by
  have hmem {us : List Text} {vs : List SourceType} (h : List.Forall₂ R us vs) :
      ∀ u ∈ us, Sealed u := by
    intro u hu
    obtain ⟨_, _, hs⟩ := exists_of_forall₂_left h u hu
    exact hR _ _ hs
  cases hf with
  | union _ hts =>
    rw [← intercalate_splitTop '|' t]
    exact sealed_intercalate_bar (hmem hts)
  | group hu hr =>
    rw [eq_of_unwrap? hu]
    exact sealed_group (hR _ _ hr).toBalanced (by decide)
  | function hs hg hv _ hps hr =>
    refine sealed_of_functionShape? hs hg (balanced_of_trim ?_) (hR _ _ hr)
    rw [eq_of_splitVariadic hv]
    exact (balanced_of_commaItems (hmem hps)).append (sealed_dots _).toBalanced
      ((sealed_dots _).fits _)
  | bare hn => exact sealed_of_isIdentifier hn
  | named ht hn hb has =>
    rw [ht]
    exact (sealed_of_isIdentifier hn).append ((sealed_of_blank hb).append
      (sealed_group (b := .square) (balanced_of_commaItems (hmem has)) (by decide)))

/-- The text of a readable type is sealed. -/
theorem sealed_of_parseType {t : Text} {type : SourceType} (h : parseType t = .ok type) :
    Sealed t := by
  refine parseType_induction (P := fun t _ => Sealed t) ?_ h
  intro t type hf
  exact sealed_of_trim (sealed_of_typeForm hf fun _ _ hu => hu.2)

/-! ### Readable types are canonical -/

theorem canonical_of_parseType {t : Text} {type : SourceType} (h : parseType t = .ok type) :
    SourceType.Canonical type := by
  refine parseType_induction (P := fun _ type => SourceType.Canonical type) ?_ h
  intro t type hf
  have hmem {us : List Text} {vs : List SourceType}
      (h : List.Forall₂ (fun u v => parseType u = .ok v ∧ SourceType.Canonical v) us vs) :
      ∀ v ∈ vs, SourceType.Canonical v := by
    intro v hv
    obtain ⟨_, _, _, hc⟩ := exists_of_forall₂_right h v hv
    exact hc
  cases hf with
  | union hl hts =>
    apply canonical_unionAll (hmem hts)
    rintro rfl
    have hlen := hts.length_eq
    rw [List.length_nil] at hlen
    omega
  | group hu hr => exact hr.2
  | @function shape generics params variadic ps r hs hg hv hb hps hr =>
    apply canonical_single
    unfold SourceEntry.Canonical
    refine ⟨isName_of_mem_genericNames hg, ?_, SourceType.allCanonical_iff.2 (hmem hps), hr.2⟩
    rintro hvar rfl
    exact absurd (List.forall₂_nil_right_iff.1 hps) (commaItems_ne_nil (hb hvar))
  | bare hn => exact canonical_named hn fun a ha => by cases ha
  | named ht hn hb has => exact canonical_named hn (hmem has)

/-! ### What is no type is rejected -/

/-- The only errors of the answer are rejections: a text is neither declined nor
    found to have no type. -/
def Rejects {α : Type} (x : Except ParseError α) : Prop :=
  ∀ e, x = .error e → ∃ fragment fault, e = .reject fragment fault

section

variable {α β : Type}

theorem rejects_ok (a : α) : Rejects (.ok a) := fun e h => by cases h

theorem rejects_reject (fragment : Text) (fault : Fault) :
    Rejects (.error (.reject fragment fault) : Except ParseError α) :=
  fun _ h => ⟨fragment, fault, (Except.error.inj h).symm⟩

theorem rejects_bind {x : Except ParseError α} {f : α → Except ParseError β} (hx : Rejects x)
    (hf : ∀ a, Rejects (f a)) : Rejects (x >>= f) := by
  intro e h
  rcases bind_eq_error_iff.1 h with h | ⟨a, _, h⟩
  · exact hx e h
  · exact hf a e h

theorem rejects_mapM {f : α → Except ParseError β} {as : List α} (h : ∀ a ∈ as, Rejects (f a)) :
    Rejects (as.mapM f) := by
  intro e he
  obtain ⟨a, ha, hf⟩ := exists_of_mapM_eq_error he
  exact h a ha e hf

theorem Rejects.ne_noMatch {x : Except ParseError α} (h : Rejects x) : x ≠ .error .noMatch := by
  intro he
  obtain ⟨_, _, h⟩ := h _ he
  cases h

end

theorem rejects_genericNames (generics : Option Text) : Rejects (genericNames generics) := by
  cases generics with
  | none => exact rejects_ok []
  | some inner =>
    apply rejects_mapM
    intro item _
    simp only
    split
    · exact rejects_ok _
    · exact rejects_reject _ _

section

variable {sub : Reader SourceType} {t : Text}

theorem rejects_typesWith (h : ∀ u, u.length ≤ t.length → Rejects (sub u)) :
    Rejects (typesWith sub t) :=
  rejects_mapM fun u hu => h u (length_of_mem_commaItems hu)

theorem rejects_functionWith {shape : FunctionShape}
    (hp : ∀ u, u.length ≤ shape.params.length → Rejects (sub u)) (hr : Rejects (sub shape.result)) :
    Rejects (functionWith sub t shape) := by
  have h₁ := length_of_splitVariadic (trim shape.params)
  have h₂ := length_trim_le shape.params
  refine rejects_bind (rejects_genericNames _) fun generics => ?_
  simp only
  split
  · exact rejects_reject _ _
  · refine rejects_bind (rejects_typesWith fun u hu => hp u (by omega)) fun params => ?_
    exact rejects_bind hr fun result => rejects_ok _

theorem rejects_namedWith (h : ∀ u, u.length < t.length → Rejects (sub u)) :
    Rejects (namedWith sub t) := by
  simp only [namedWith]
  split
  · exact rejects_reject _ _
  split
  · exact rejects_ok _
  split
  · exact rejects_reject _ _
  · next inner hi =>
    have h₁ := length_of_unwrap? hi
    have h₂ := length_trimStart_le (t.dropWhile isNameChar)
    have h₃ : (t.dropWhile isNameChar).length ≤ t.length := (List.dropWhile_suffix _).length_le
    refine rejects_bind (rejects_typesWith fun u hu => h u (by omega)) fun args => ?_
    exact rejects_ok _

theorem rejects_typeWith (h : ∀ u, u.length < t.length → Rejects (sub u)) :
    Rejects (typeWith sub t) := by
  have ht := length_trim_le t
  simp only [typeWith]
  split
  · exact rejects_reject _ _
  split
  · next hmany =>
    refine rejects_bind (rejects_mapM fun u hu => ?_) fun members => rejects_ok _
    exact h u (Nat.lt_of_lt_of_le (length_of_mem_splitTop_of_two hu hmany) ht)
  split
  · next inner hi =>
    have h₁ := length_of_unwrap? hi
    exact h inner (by omega)
  split
  · next shape hs =>
    have h₁ := length_of_functionShape? hs
    exact rejects_functionWith (fun u hu => h u (by omega)) (h _ (by omega))
  · exact rejects_namedWith fun u hu => h u (by omega)

end

/-- A text that is no type is rejected, never declined. -/
theorem rejects_parseType (t : Text) : Rejects (parseType t) := by
  induction t using parseType.induct with
  | case1 t ih =>
    rw [parseType_eq]
    exact rejects_typeWith ih

end UnionTyping
