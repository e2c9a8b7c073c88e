/-
  UnionTyping/Proofs/Grammar/DerivedTypes.lean
  ============================================
  **Derived types are read** — a text that the grammar derives is read as the
  type that it stands for (`read_of_typeText`).  The reader finds the pieces
  of a rule again because the text of every member is clear: sealed, and without
  a bar at the top level (`Text.Clear`); and it takes dots for those of a variadic
  list only where the grammar does, because no type ends with one (`Text.NoDot`).
-/
import UnionTyping.Proofs.Grammar.TypeForms
import UnionTyping.Proofs.Grammar.TypeGrammar

namespace UnionTyping

open Text

/-! ### Blanks around a type -/

theorem parseType_spaced {u t : Text} (h : Spaced u t) : parseType t = parseType u := by
  cases h with
  | mk hb hb' => rw [← parseType_trim, trim_append_blank hb hb', parseType_trim]

theorem not_blank_of_parseType {t : Text} {type : SourceType} (h : parseType t = .ok type) :
    ¬Blank t := by
  intro hb
  rw [parseType_eq, typeWith, trim_eq_nil_iff.2 hb] at h
  cases h

theorem Text.Avoids.of_spaced {p : Char → Bool} {t u : Text} (h : Avoids p t) (hs : Spaced u t) :
    Avoids p u := by
  cases hs with
  | @mk l r hl _ =>
    have hright := (h.of_append (sealed_of_blank hl).toBalanced (fits_of_blank hl _)).2
    exact fun x c y hx htop => hright x c (y ++ r) (by rw [hx]; simp) htop

/-! ### Clear texts -/

/-- A sealed text without a bar at the top level. -/
structure Text.Clear (t : Text) : Prop extends Sealed t where
  bar : Avoids (· == '|') t

namespace Text.Clear

variable {t u : Text}

theorem append (ht : Clear t) (hu : Clear u) : Clear (t ++ u) :=
  ⟨ht.toSealed.append hu.toSealed, ht.bar.append ht.toBalanced hu.bar (hu.fits _)⟩

theorem of_sealed (ht : Sealed t) (hbar : '|' ∉ t) : Clear t := by
  refine ⟨ht, avoids_of_forall ?_⟩
  intro c hc
  simp only [beq_eq_false_iff_ne]
  rintro rfl
  exact hbar hc

theorem of_blank (ht : Blank t) : Clear t :=
  of_sealed (sealed_of_blank ht) fun hm => absurd (ht _ hm) (by decide)

theorem of_isIdentifier (ht : isIdentifier t = true) : Clear t :=
  of_sealed (sealed_of_isIdentifier ht)
    fun hm => absurd (isNameChar_of_mem_identifier ht _ hm) (by decide)

theorem group {b : Bracket} (ht : Balanced t) (hb : b ≠ .angle) :
    Clear (b.opening :: (t ++ [b.closing])) :=
  ⟨sealed_group ht hb, avoids_group ht (by cases b <;> decide)⟩

theorem spaced (hu : Clear u) (h : Spaced u t) : Clear t := by
  cases h with
  | mk hb hb' => exact (of_blank hb).append (hu.append (of_blank hb'))

end Text.Clear

/-! ### Texts that end without a dot -/

/-- Nothing but blanks stands behind no dot. -/
def Text.NoDot (t : Text) : Prop := ∀ l r, t = l ++ '.' :: r → ¬Blank r

namespace Text.NoDot

variable {t u : Text}

theorem append (hu : NoDot u) (hne : ¬Blank u) : NoDot (t ++ u) := by
  intro l r he hb
  rcases List.append_eq_append_iff.1 he with ⟨x, rfl, hx⟩ | ⟨x, rfl, hx⟩
  · exact hu x r hx hb
  · cases x with
    | nil => exact hu [] r hx.symm hb
    | cons c x =>
      obtain ⟨_, rfl⟩ := List.cons.inj hx
      exact hne hb.of_append.2

/-- The last character before the blanks decides. -/
theorem of_last {c : Char} (hb : isBlank c = false) (hc : c ≠ '.') (hu : Blank u) :
    NoDot (t ++ c :: u) := by
  apply append
  · intro l r he hr
    cases l with
    | nil => exact hc (List.cons.inj he).1
    | cons d l =>
      obtain ⟨_, rfl⟩ := List.cons.inj he
      exact absurd (hu '.' (by simp)) (by decide)
  · intro hblank
    rw [hblank c (List.mem_cons_self ..)] at hb
    cases hb

theorem spaced_concat {c : Char} (hb : isBlank c = false) (hc : c ≠ '.')
    (h : Spaced (t ++ [c]) u) : NoDot u := by
  cases h with
  | @mk l r _ hr =>
    have h := of_last (t := l ++ t) hb hc hr
    simpa only [List.append_assoc, List.cons_append, List.nil_append] using h

end Text.NoDot

/-! ### Lists -/

section

variable {α : Type} {d : Char} {R : Text → α → Prop} {t : Text} {as : List α}

/-- The items are found again between the separators. -/
theorem Joined.forall₂ (h : Joined d R t as) (hd : isPlain d = true) (hstem : d ≠ '~' ∧ d ≠ '=')
    (hR : ∀ u a, R u a → Balanced u ∧ Avoids (· == d) u) : List.Forall₂ R (splitTop d t) as := by
  induction h with
  | one hr =>
    rw [splitTop_eq_singleton (hR _ _ hr).2]
    exact .cons hr .nil
  | cons hr _ ih =>
    rw [splitTop_append_cons hd hstem (hR _ _ hr).1 (hR _ _ hr).2]
    exact .cons hr ih

theorem Joined.not_blank (h : Joined d R t as) (hR : ∀ u a, R u a → ¬Blank u) : ¬Blank t := by
  intro hb
  cases h with
  | one hr => exact hR _ _ hr hb
  | cons hr _ => exact hR _ _ hr hb.of_append.1

theorem Listed.forall₂ (h : Listed R t as) (hR : ∀ u a, R u a → Sealed u ∧ ¬Blank u) :
    List.Forall₂ R (commaItems t) as := by
  rcases h.joined with ⟨hb, rfl⟩ | hj
  · rw [commaItems, if_pos (allBlank_iff.2 hb)]
    exact .nil
  · rw [commaItems_of_not_blank (hj.not_blank fun u a hr => (hR u a hr).2)]
    apply hj.forall₂ (by decide) (by decide)
    exact fun u a hr => ⟨(hR u a hr).1.toBalanced, (hR u a hr).1.avoids (by decide)⟩

theorem Listed.balanced (h : Listed R t as) (hR : ∀ u a, R u a → Sealed u ∧ ¬Blank u) :
    Balanced t := by
  apply balanced_of_commaItems
  intro u hu
  obtain ⟨a, _, hr⟩ := exists_of_forall₂_left (h.forall₂ hR) u hu
  exact (hR u a hr).1

theorem Joined.trimStart (h : Joined d R t as) (hne : ∀ u a, R u a → ¬Blank u)
    (hR : ∀ {u v a}, Spaced u v → R v a → R u a) : Joined d R (trimStart t) as := by
  cases h with
  | one hr => exact .one (hR (spaced_trimStart _) hr)
  | cons hr hj =>
    rw [trimStart_append_of_not_blank (hne _ _ hr)]
    exact .cons (hR (spaced_trimStart _) hr) hj

/-- Trimming a list trims its first and its last item. -/
theorem Joined.trim (h : Joined d R t as) (hne : ∀ u a, R u a → ¬Blank u)
    (hR : ∀ {u v a}, Spaced u v → R v a → R u a) : Joined d R (trim t) as := by
  have hend {u : Text} {bs : List α} (hj : Joined d R u bs) : Joined d R (trimEnd u) bs := by
    induction hj with
    | one hr => exact .one (hR (spaced_trimEnd _) hr)
    | cons hr hj ih =>
      rw [List.append_cons, trimEnd_append_of_not_blank (hj.not_blank hne), ← List.append_cons]
      exact .cons hr ih
  exact hend (h.trimStart hne hR)

end

/-- A list of readable types is balanced, and its types are read one by one. -/
theorem typesWith_of_listed {t : Text} {ts : List SourceType}
    (h : Listed (fun u v => parseType u = .ok v) t ts) :
    Balanced t ∧ typesWith parseType t = .ok ts := by
  have hR : ∀ u v, parseType u = .ok v → Sealed u ∧ ¬Blank u :=
    fun u v hr => ⟨sealed_of_parseType hr, not_blank_of_parseType hr⟩
  exact ⟨h.balanced hR, mapM_eq_ok_iff.2 (h.forall₂ hR)⟩

/-! ### Generics -/

theorem head_of_isIdentifier {t : Text} (h : isIdentifier t = true) :
    ∃ c, t.head? = some c ∧ isBlank c = false := by
  cases t with
  | nil => cases h
  | cons c t =>
    exact ⟨c, rfl, isBlank_of_isNameChar (isNameChar_of_mem_identifier h c (List.mem_cons_self ..))⟩

theorem not_blank_of_isIdentifier {n : Name} (h : isIdentifier n = true) : ¬Blank n := by
  obtain ⟨c, hc, hb⟩ := head_of_isIdentifier h
  intro hblank
  rw [hblank c (List.mem_of_head? hc)] at hb
  cases hb

theorem trim_of_isIdentifier {n : Name} (h : isIdentifier n = true) : trim n = n :=
  trim_eq_self (.of_forall fun c hc => isBlank_of_isNameChar (isNameChar_of_mem_identifier h c hc))

theorem nameText_iff {t : Text} {n : Name} : NameText t n ↔ trim t = n ∧ isName n = true := by
  constructor
  · rintro (⟨hn, hs⟩)
    cases hs with
    | mk hb hb' =>
      exact ⟨by rw [trim_append_blank hb hb', trim_of_isIdentifier (isIdentifier_of_isName hn)], hn⟩
  · rintro ⟨rfl, hn⟩
    exact .mk hn (spaced_trim t)

theorem NameText.sealed {t : Text} {n : Name} (h : NameText t n) : Sealed t ∧ ¬Blank t := by
  obtain ⟨rfl, hn⟩ := nameText_iff.1 h
  refine ⟨sealed_of_trim (sealed_of_isName hn), ?_⟩
  intro hb
  rw [trim_eq_nil_iff.2 hb] at hn
  cases hn

theorem genericNames_of_listed {t : Text} {ns : List Name} (h : Listed NameText t ns) :
    Balanced t ∧ genericNames (some t) = .ok ns := by
  have hR : ∀ u n, NameText u n → Sealed u ∧ ¬Blank u := fun u n hn => hn.sealed
  refine ⟨h.balanced hR, mapM_eq_ok_iff.2 ((h.forall₂ hR).imp ?_)⟩
  intro u n hn
  obtain ⟨rfl, hname⟩ := nameText_iff.1 hn
  exact if_pos hname

section

variable {g rest : Text} {ns : List Name}

/-- Generics before parentheses are split off, with the blanks around them. -/
theorem splitGenerics?_of_genericsText (hg : GenericsText g ns) (hr : rest.head? = some '(') :
    ∃ generics, splitGenerics? (trimStart (g ++ rest)) = some (generics, rest)
      ∧ genericNames generics = .ok ns := by
  have htrim : trimStart rest = rest := trimStart_of_head? hr (by decide)
  cases hg with
  | absent =>
    refine ⟨none, ?_, rfl⟩
    rw [List.nil_append, htrim, splitGenerics?, if_neg (by rw [hr]; decide)]
  | @written names _ _ hl hs =>
    obtain ⟨hb, hnames⟩ := genericNames_of_listed hl
    refine ⟨some names, ?_, hnames⟩
    cases hs with
    | @mk l r hl hr' =>
      have hgroup : group? .square ('[' :: (names ++ ']' :: (r ++ rest)))
          = some (names, r ++ rest) :=
        group?_append (b := .square) hb (closesAfter_of_ne (by decide))
      have hstart : trimStart (l ++ ('[' :: (names ++ [']']) ++ r) ++ rest)
          = '[' :: (names ++ ']' :: (r ++ rest)) := by
        rw [List.append_assoc, trimStart_append_blank hl]
        simp [trimStart, isBlank]
      rw [hstart, splitGenerics?, List.head?_cons, if_pos rfl, hgroup]
      simp only [Option.map_some, trimStart_append_blank hr', htrim]

theorem clear_of_genericsText (hg : GenericsText g ns) : Clear g := by
  cases hg with
  | absent => exact .of_blank blank_nil
  | written hl hs =>
    exact (Clear.group (b := .square) (genericNames_of_listed hl).1 (by decide)).spaced hs

/-- Generics that are written begin with their bracket. -/
theorem head?_of_genericsText (hg : GenericsText g ns) :
    g = [] ∨ (trimStart (g ++ rest)).head? = some '[' := by
  cases hg with
  | absent => exact Or.inl rfl
  | written _ hs =>
    cases hs with
    | mk hl _ =>
      right
      rw [List.append_assoc, trimStart_append_blank hl]
      rfl

end

/-! ### The other pieces of a function type -/

theorem clear_of_pureText {p : Text} {isPure : Bool} (hp : PureText p isPure) : Clear p := by
  cases hp with
  | absent hb => exact .of_blank hb
  | written hs => exact (Clear.of_isIdentifier (by decide)).spaced hs

/-- The word is split off before a bracket, and nothing where it is not written. -/
theorem splitPure_of_pureText {p u : Text} {isPure : Bool} (hp : PureText p isPure)
    (hu : (trimStart u).head? = some '(' ∨ (trimStart u).head? = some '[') :
    splitPure (trimStart (p ++ u)) = (isPure, trimStart u) := by
  cases hp with
  | absent hb =>
    have hafter : after? ['p', 'u', 'r', 'e'] (trimStart u) = none := by
      cases hc : trimStart u with
      | nil => rfl
      | cons c v =>
        rw [hc] at hu
        rcases hu with h | h <;>
        · obtain rfl := Option.some.inj h
          rfl
    rw [trimStart_append_blank hb, splitPure, hafter]
  | written hs =>
    cases hs with
    | @mk l r hl hr =>
      have hstart : trimStart (l ++ (['p', 'u', 'r', 'e'] ++ r) ++ u)
          = ['p', 'u', 'r', 'e'] ++ (r ++ u) := by
        rw [List.append_assoc, trimStart_append_blank hl]
        rfl
      have hafter : after? ['p', 'u', 'r', 'e'] (['p', 'u', 'r', 'e'] ++ (r ++ u))
          = some (r ++ u) :=
        after?_eq_some_iff.2 rfl
      rw [hstart, splitPure, hafter]
      simp only [trimStart_append_blank hr]
      exact if_pos hu

theorem arrowText_iff {t : Text} {scope : ScopeMode} :
    ArrowText t scope ↔ ∃ arrow, (arrow, scope) ∈ typeArrows ∧ Spaced arrow t := by
  constructor
  · rintro (hs | hs | hs | hs)
    · exact ⟨_, by decide, hs⟩
    · exact ⟨_, by decide, hs⟩
    · exact ⟨_, by decide, hs⟩
    · exact ⟨_, by decide, hs⟩
  · rintro ⟨arrow, hm, hs⟩
    simp only [typeArrows, List.mem_cons, Prod.mk.injEq, List.not_mem_nil, or_false] at hm
    rcases hm with ⟨rfl, rfl⟩ | ⟨rfl, rfl⟩ | ⟨rfl, rfl⟩ | ⟨rfl, rfl⟩
    · exact .own hs
    · exact .shared hs
    · exact .double hs
    · exact .wave hs

theorem clear_of_arrowText {a : Text} {scope : ScopeMode} (ha : ArrowText a scope) : Clear a := by
  obtain ⟨arrow, hm, hs⟩ := arrowText_iff.1 ha
  have hbar : ∀ x ∈ typeArrows, '|' ∉ x.1 := by decide
  exact (Clear.of_sealed (sealed_of_mem_typeArrows hm) (hbar _ hm)).spaced hs

theorem arrow?_of_arrowText {a : Text} {scope : ScopeMode} (ha : ArrowText a scope) (r : Text) :
    ∃ b, arrow? (trimStart (a ++ r)) = some (scope, b ++ r) ∧ Blank b := by
  obtain ⟨arrow, hm, hs⟩ := arrowText_iff.1 ha
  cases hs with
  | @mk l b hl hb =>
    refine ⟨b, ?_, hb⟩
    rw [List.append_assoc, trimStart_append_blank hl, List.append_assoc]
    simp only [typeArrows, List.mem_cons, Prod.mk.injEq, List.not_mem_nil, or_false] at hm
    rcases hm with ⟨rfl, rfl⟩ | ⟨rfl, rfl⟩ | ⟨rfl, rfl⟩ | ⟨rfl, rfl⟩ <;> rfl

/-- A text that is read as a type and does not end with a dot. -/
structure TypeRead (t : Text) (type : SourceType) : Prop where
  reads : parseType t = .ok type
  noDot : NoDot t

theorem Joined.noDot {α : Type} {d : Char} {R : Text → α → Prop} {t : Text} {as : List α}
    (h : Joined d R t as) (hR : ∀ u a, R u a → NoDot u ∧ ¬Blank u) : NoDot t := by
  induction h with
  | one hr => exact (hR _ _ hr).1
  | cons _ hj ih =>
    rw [List.append_cons]
    exact ih.append (hj.not_blank fun u a hr => (hR u a hr).2)

/-- Without dots a parameter list is read as it stands. -/
theorem splitVariadic_of_listed {t : Text} {ts : List SourceType} (h : Listed TypeRead t ts) :
    splitVariadic (trim t) = (trim t, false) := by
  cases hb : before? ['.', '.', '.'] (trim t) with
  | none => simp only [splitVariadic, hb]
  | some stem =>
    exfalso
    have he := before?_eq_some_iff.1 hb
    rcases h.joined with ⟨hblank, _⟩ | hj
    · rw [trim_eq_nil_iff.2 hblank] at he
      simp at he
    · have hdot := hj.noDot fun u v hu => ⟨hu.noDot, not_blank_of_parseType hu.reads⟩
      obtain ⟨l, r, ht, _, hr⟩ := exists_eq_append_trim t
      exact hdot (l ++ (stem ++ ['.', '.'])) r (by rw [ht, he]; simp) hr

/-- The dots of a variadic list are split off with the blanks around them. -/
theorem splitVariadic_of_spaced {t dots : Text} (ht : ¬Blank t) (hd : Spaced ['.', '.', '.'] dots) :
    ∃ b, splitVariadic (trim (t ++ dots)) = (trimStart t ++ b, true) ∧ Blank b := by
  cases hd with
  | @mk b r hb hr =>
    have hlast : ∀ c, (t ++ (b ++ ['.', '.', '.'])).getLast? = some c → isBlank c = false := by
      intro c hc
      rw [← List.append_assoc, List.getLast?_append] at hc
      obtain rfl := Option.some.inj hc
      decide
    have htrim : trim (t ++ (b ++ (['.', '.', '.'] ++ r)))
        = trimStart t ++ b ++ ['.', '.', '.'] := by
      have h := trim_append_blank (t := t ++ (b ++ ['.', '.', '.'])) blank_nil hr
      rw [trim_eq_trimStart_trimEnd (t ++ _), trimEnd_eq_self hlast,
        trimStart_append_of_not_blank ht] at h
      simpa only [List.append_assoc, List.nil_append] using h
    refine ⟨b, ?_, hb⟩
    rw [htrim, splitVariadic, before?_eq_some_iff.2 rfl]

/-- A list of parameters is balanced; its dots are split off and its types are
    read. -/
theorem params_of_paramsText {ps : Text} {variadic : Bool} {params : List SourceType}
    (h : ParamsText TypeRead ps variadic params) :
    Balanced ps ∧ ∃ stem, splitVariadic (trim ps) = (stem, variadic)
      ∧ (variadic = true → ¬Blank stem) ∧ (commaItems stem).mapM parseType = .ok params := by
  have hblank : ∀ u v, parseType u = .ok v → ¬Blank u := fun u v hr => not_blank_of_parseType hr
  have hspaced {u w : Text} {v : SourceType} (hs : Spaced u w) (hr : parseType w = .ok v) :
      parseType u = .ok v := (parseType_spaced hs).symm.trans hr
  cases h with
  | fixed hl =>
    have hl' : Listed (fun u v => parseType u = .ok v) ps params := hl.imp fun _ _ _ hr => hr.reads
    have htrim : Listed (fun u v => parseType u = .ok v) (trim ps) params := by
      rcases hl'.joined with ⟨hb, rfl⟩ | hj
      · rw [trim_eq_nil_iff.2 hb]
        exact .none blank_nil
      · exact .of_joined (hj.trim hblank hspaced)
    exact ⟨(typesWith_of_listed hl').1, trim ps, splitVariadic_of_listed hl,
      fun hv => (Bool.false_ne_true hv).elim, (typesWith_of_listed htrim).2⟩
  | @variadic t dots _ hj hd =>
    have hj' : Joined ',' (fun u v => parseType u = .ok v) t params :=
      hj.imp fun _ _ _ hr => hr.reads
    have hdots : Sealed dots :=
      ((Clear.of_sealed (sealed_of_plain (by decide)) (by decide)).spaced hd).toSealed
    obtain ⟨b, hsplit, hb⟩ := splitVariadic_of_spaced (hj'.not_blank hblank) hd
    have hstem : Joined ',' (fun u v => parseType u = .ok v) (trimStart t ++ b) params :=
      (hj'.trimStart hblank hspaced).pad
        (fun hr hl hr' => (parseType_spaced (.mk hl hr')).trans hr) blank_nil hb
    have ht := (typesWith_of_listed (.of_joined hj')).1
    exact ⟨ht.append hdots.toBalanced (hdots.fits _), _, hsplit, fun _ => hstem.not_blank hblank,
      (typesWith_of_listed (.of_joined hstem)).2⟩

/-! ### Members -/

theorem parseType_group {t : Text} (h : Balanced t) :
    parseType ('(' :: (t ++ [')'])) = parseType t := by
  have htrim : trim ('(' :: (t ++ [')'])) = '(' :: (t ++ [')']) :=
    trim_eq_self (trimmed_cons_append (by decide) (by decide))
  have hbar : splitTop '|' ('(' :: (t ++ [')'])) = ['(' :: (t ++ [')'])] :=
    splitTop_eq_singleton (avoids_group (b := .round) h (by decide))
  have hgroup : unwrap? .round ('(' :: (t ++ [')'])) = some t :=
    unwrap?_group (b := .round) h (closesAfter_of_ne (by decide))
  rw [parseType_eq, typeWith]
  simp only [htrim, hbar, hgroup]
  rfl

/-- A clear text without parentheses around it is a function type or a name. -/
theorem parseType_single {t : Text} (ht : Clear t) (hne : ¬Blank t)
    (hgroup : unwrap? .round (trim t) = none) :
    parseType t = match functionShape? (trim t) with
      | some shape => functionWith parseType (trim t) shape
      | none => namedWith parseType (trim t) := by
  have hempty : (trim t).isEmpty = false := by simpa using mt trim_eq_nil_iff.1 hne
  have hbar : splitTop '|' (trim t) = [trim t] :=
    splitTop_eq_singleton (ht.bar.of_spaced (spaced_trim t))
  rw [parseType_eq, typeWith]
  simp only [hbar, hgroup, hempty]
  rfl

section

variable {p g ps a r : Text} {isPure variadic : Bool} {generics : List Name} {scope : ScopeMode}

theorem functionShape?_of_pieces (hp : PureText p isPure) (hg : GenericsText g generics)
    (hps : Balanced ps) (ha : ArrowText a scope) :
    ∃ names b, functionShape? (trimStart (p ++ (g ++ '(' :: (ps ++ ')' :: (a ++ r)))))
        = some ⟨isPure, names, ps, scope, b ++ r⟩
      ∧ genericNames names = .ok generics ∧ Blank b := by
  have hhead : ('(' :: (ps ++ ')' :: (a ++ r))).head? = some '(' := rfl
  obtain ⟨names, hsplit, hnames⟩ := splitGenerics?_of_genericsText hg hhead
  obtain ⟨b, harrow, hb⟩ := arrow?_of_arrowText ha r
  have hopen : (trimStart (g ++ '(' :: (ps ++ ')' :: (a ++ r)))).head? = some '('
      ∨ (trimStart (g ++ '(' :: (ps ++ ')' :: (a ++ r)))).head? = some '[' := by
    rcases head?_of_genericsText hg with rfl | h
    · exact Or.inl rfl
    · exact Or.inr h
  have hgroup : group? .round ('(' :: (ps ++ ')' :: (a ++ r))) = some (ps, a ++ r) :=
    group?_append (b := .round) hps (closesAfter_of_ne (by decide))
  refine ⟨names, b, ?_, hnames, hb⟩
  simp only [functionShape?, splitPure_of_pureText hp hopen, hsplit, hgroup, harrow,
    Option.bind_eq_bind, Option.bind_some]
  rfl

/-- A function type goes on behind its parameters, so that no parentheses enclose
    it. -/
theorem unwrap?_of_pieces (hp : PureText p isPure) (hg : GenericsText g generics)
    (hps : Balanced ps) (hne : a ++ r ≠ []) :
    unwrap? .round (trimStart (p ++ (g ++ '(' :: (ps ++ ')' :: (a ++ r))))) = none := by
  cases hp with
  | absent hb =>
    rw [trimStart_append_blank hb]
    rcases head?_of_genericsText hg with rfl | h
    · have hgroup : Balanced ('(' :: (ps ++ [')'])) :=
        hps.group (b := .round) (closesAfter_of_ne (by decide))
      have h := unwrap?_append (b := .round) hgroup (by simp) hne
      rwa [List.cons_append, List.append_assoc] at h
    · exact unwrap?_of_head (by rw [h]; decide)
  | written hs =>
    cases hs with
    | mk hl _ =>
      rw [List.append_assoc, trimStart_append_blank hl]
      exact unwrap?_of_head (b := .round) (by simp [trimStart, isBlank, Bracket.opening])

theorem clear_of_pieces (hp : PureText p isPure) (hg : GenericsText g generics)
    (hps : Balanced ps) (ha : ArrowText a scope) (hr : Clear r) :
    Clear (p ++ (g ++ '(' :: (ps ++ ')' :: (a ++ r)))) := by
  have hgroup : Clear ('(' :: (ps ++ [')'])) := .group (b := .round) hps (by decide)
  have h := (clear_of_pureText hp).append ((clear_of_genericsText hg).append
    (hgroup.append ((clear_of_arrowText ha).append hr)))
  simpa only [List.cons_append, List.append_assoc, List.nil_append] using h

theorem parseType_function {params : List SourceType} {result : SourceType}
    (hp : PureText p isPure) (hg : GenericsText g generics)
    (hps : ParamsText TypeRead ps variadic params) (ha : ArrowText a scope)
    (hread : parseType r = .ok result) (hr : Clear r) :
    parseType (p ++ (g ++ '(' :: (ps ++ ')' :: (a ++ r))))
      = .ok (.single (.function ⟨scope, isPure, variadic, generics⟩ params result)) := by
  obtain ⟨hbalanced, stem, hstem, hlone, hparams⟩ := params_of_paramsText hps
  obtain ⟨names, b, hshape, hnames, hb⟩ :=
    functionShape?_of_pieces (r := trimEnd r) hp hg hbalanced ha
  have hne := not_blank_of_parseType hread
  have htrim : trim (p ++ (g ++ '(' :: (ps ++ ')' :: (a ++ r))))
      = trimStart (p ++ (g ++ '(' :: (ps ++ ')' :: (a ++ trimEnd r)))) := by
    have h := trimEnd_append_of_not_blank (l := p ++ (g ++ '(' :: (ps ++ ')' :: a))) hne
    simp only [List.append_assoc, List.cons_append] at h
    rw [trim_eq_trimStart_trimEnd, h]
  have hblank : ¬Blank (p ++ (g ++ '(' :: (ps ++ ')' :: (a ++ r)))) := by
    intro hb
    exact absurd (hb '(' (by simp)) (by decide)
  have hresult : parseType (b ++ trimEnd r) = .ok result := by
    have hs : Spaced (trimEnd r) (b ++ trimEnd r) := .of_eq (by simp) hb blank_nil
    rw [parseType_spaced hs, ← parseType_spaced (spaced_trimEnd r)]
    exact hread
  have hrest : a ++ trimEnd r ≠ [] := by
    intro hnil
    exact hne (trim_eq_nil_iff.1 (by
      rw [trim_eq_trimStart_trimEnd, (List.append_eq_nil_iff.1 hnil).2]; rfl))
  rw [parseType_single (clear_of_pieces hp hg hbalanced ha hr) hblank
    (by rw [htrim]; exact unwrap?_of_pieces hp hg hbalanced hrest), htrim, hshape]
  exact functionWith_eq_ok_iff.2 ⟨generics, stem, variadic, params, result, hnames, hstem, hlone,
    hparams, hresult, rfl⟩

end

section

variable {name rest : Text}

theorem takeWhile_name (hn : isIdentifier name = true)
    (hr : ∀ c, rest.head? = some c → isNameChar c = false) :
    (name ++ rest).takeWhile isNameChar = name ∧ (name ++ rest).dropWhile isNameChar = rest := by
  have hall := isNameChar_of_mem_identifier hn
  rw [List.takeWhile_append_of_pos hall, List.dropWhile_append_of_pos hall]
  cases rest with
  | nil => exact ⟨List.append_nil name, rfl⟩
  | cons c rest =>
    have hc := hr c rfl
    rw [List.takeWhile_cons_of_neg (by simp [hc]), List.dropWhile_cons_of_neg (by simp [hc]),
      List.append_nil]
    exact ⟨rfl, rfl⟩

theorem head_ne_of_isIdentifier {c : Char} (hn : isIdentifier name = true)
    (hc : isNameChar c = false) : (name ++ rest).head? ≠ some c := by
  intro he
  cases name with
  | nil => cases hn
  | cons d name =>
    obtain rfl := Option.some.inj he
    rw [isNameChar_of_mem_identifier hn d (List.mem_cons_self ..)] at hc
    cases hc

theorem isDigit_of_isNameStart {c : Char} (hc : isNameStart c = true) : c.isDigit = false := by
  have hall : ∀ d ∈ (List.range 123).map Char.ofNat, isNameStart d = true → d.isDigit = false := by
    decide +kernel
  exact hall c (mem_range_of_isNameChar (isNameChar_of_isNameStart hc)) hc

/-- From a name nothing is split off but the whole name. -/
theorem splitPure_name (hn : isIdentifier name = true)
    (hr : ∀ c, rest.head? = some c → isNameChar c = false) :
    splitPure (name ++ rest) = (false, name ++ rest)
      ∨ splitPure (name ++ rest) = (true, trimStart rest) := by
  unfold splitPure
  split
  · exact Or.inl rfl
  · next u hu =>
    simp only
    split
    · next hopen =>
      right
      rw [after?_eq_some_iff] at hu
      -- a longer name would go on with a name character
      have hnext : ∀ c, u.head? = some c → isNameChar c = false := by
        intro c hc
        cases hb : isBlank c with
        | true => exact isNameChar_of_isBlank hb
        | false =>
          rw [trimStart_of_head? hc hb, hc] at hopen
          rcases hopen with h | h <;>
          · obtain rfl := Option.some.inj h
            decide
      have h₁ := (takeWhile_name hn hr).2
      rw [hu, (takeWhile_name (by decide) hnext).2] at h₁
      rw [h₁]
    · exact Or.inl rfl

/-- What may follow the name of a type: nothing, or arguments. -/
inductive ArgumentsText : Text → Prop
  | absent : ArgumentsText []
  | written {b args : Text} : Blank b → Balanced args → ArgumentsText (b ++ '[' :: (args ++ [']']))

theorem arguments_concat {b args : Text} :
    name ++ (b ++ '[' :: (args ++ [']'])) = (name ++ (b ++ '[' :: args)) ++ [']'] := by
  simp

theorem head?_of_argumentsText (h : ArgumentsText rest) :
    ∀ c, rest.head? = some c → isNameChar c = false := by
  intro c hc
  cases h with
  | absent => cases hc
  | @written b args hb _ =>
    cases b with
    | nil =>
      obtain rfl := Option.some.inj hc
      decide
    | cons d b =>
      obtain rfl := Option.some.inj hc
      exact isNameChar_of_isBlank (hb d (List.mem_cons_self ..))

theorem group?_square {b args : Text} (hb : Blank b) (hargs : Balanced args) :
    trimStart (b ++ '[' :: (args ++ [']'])) = '[' :: (args ++ [']'])
      ∧ group? .square ('[' :: (args ++ [']'])) = some (args, [])
      ∧ unwrap? .square ('[' :: (args ++ [']'])) = some args := by
  refine ⟨?_, ?_, ?_⟩
  · rw [trimStart_append_blank hb]
    rfl
  · exact group?_append (b := .square) hargs (closesAfter_of_ne (by decide))
  · exact unwrap?_group (b := .square) hargs (closesAfter_of_ne (by decide))

theorem functionShape?_name (hn : isIdentifier name = true) (hr : ArgumentsText rest) :
    functionShape? (name ++ rest) = none := by
  rcases splitPure_name hn (head?_of_argumentsText hr) with h | h
  · have hsquare : (name ++ rest).head? ≠ some '[' := head_ne_of_isIdentifier hn (by decide)
    have hround : group? .round (name ++ rest) = none :=
      group?_of_head (b := .round) (head_ne_of_isIdentifier hn (by decide))
    simp only [functionShape?, h, splitGenerics?, if_neg hsquare, Option.bind_eq_bind,
      Option.bind_some, hround, Option.bind_none]
  · cases hr with
    | absent =>
      simp only [functionShape?, h]
      rfl
    | written hb hargs =>
      obtain ⟨htrim, hgroup, _⟩ := group?_square hb hargs
      simp only [functionShape?, h, htrim, splitGenerics?, List.head?_cons, if_true, hgroup,
        Option.map_some, Option.bind_eq_bind, Option.bind_some]
      rfl

theorem clear_name (hn : isIdentifier name = true) (hr : ArgumentsText rest) :
    Clear (name ++ rest) := by
  apply (Clear.of_isIdentifier hn).append
  cases hr with
  | absent => exact .of_blank blank_nil
  | written hb hargs => exact (Clear.of_blank hb).append (.group (b := .square) hargs (by decide))

/-- A name with or without arguments is read as nothing else. -/
theorem parseType_name (hn : isIdentifier name = true) (hr : ArgumentsText rest) :
    parseType (name ++ rest) = namedWith parseType (name ++ rest) := by
  have hne : ¬Blank (name ++ rest) := fun hb => not_blank_of_isIdentifier hn hb.of_append.1
  have htrim : trim (name ++ rest) = name ++ rest := by
    apply trim_eq_self
    constructor
    · intro c hc
      obtain ⟨d, hd, hb⟩ := head_of_isIdentifier hn
      rw [List.head?_append, hd] at hc
      obtain rfl := Option.some.inj hc
      exact hb
    · intro c hc
      cases hr with
      | absent =>
        rw [List.append_nil] at hc
        exact isBlank_of_isNameChar (isNameChar_of_mem_identifier hn c (List.mem_of_getLast? hc))
      | @written b args _ _ =>
        rw [arguments_concat, List.getLast?_append] at hc
        obtain rfl := Option.some.inj hc
        decide
  have hgroup : unwrap? .round (name ++ rest) = none :=
    unwrap?_of_head (b := .round) (head_ne_of_isIdentifier hn (by decide))
  have hread := parseType_single (clear_name hn hr) hne (by rw [htrim]; exact hgroup)
  rw [htrim, functionShape?_name hn hr] at hread
  exact hread

theorem namedWith_name {sub : Reader SourceType} (hn : isIdentifier name = true) :
    namedWith sub name = .ok (.bare name)
      ∧ ∀ b args, Blank b → Balanced args →
        namedWith sub (name ++ (b ++ '[' :: (args ++ [']'])))
          = do return .named name (← typesWith sub args) := by
  have hid : (name.isEmpty || name.head?.any Char.isDigit) = false := by
    cases name with
    | nil => cases hn
    | cons c name =>
      simp only [isIdentifier, Bool.and_eq_true] at hn
      simpa using isDigit_of_isNameStart hn.1
  constructor
  · obtain ⟨htake, hdrop⟩ := takeWhile_name hn (head?_of_argumentsText .absent)
    rw [List.append_nil] at htake hdrop
    simp only [namedWith, htake, hdrop, hid]
    rfl
  · intro b args hb hargs
    obtain ⟨htake, hdrop⟩ := takeWhile_name hn (head?_of_argumentsText (.written hb hargs))
    obtain ⟨htrim, _, hgroup⟩ := group?_square hb hargs
    simp only [namedWith, htake, hdrop, htrim, hgroup, hid]
    rfl

end

/-! ### Every derived type -/

/-- A member is read, and the reader finds its end. -/
theorem read_of_memberText {t : Text} {type : SourceType} (h : MemberText TypeRead t type) :
    TypeRead t type ∧ Clear t := by
  have hread {u : Text} {us : List SourceType} (hl : Listed TypeRead u us) :
      Listed (fun u v => parseType u = .ok v) u us := hl.imp fun _ _ _ hr => hr.reads
  induction h with
  | @group inner t type hr hs =>
    have hb := (sealed_of_parseType hr.reads).toBalanced
    refine ⟨⟨?_, ?_⟩, (Clear.group (b := .round) hb (by decide)).spaced hs⟩
    · rw [parseType_spaced hs, parseType_group hb]
      exact hr.reads
    · rw [← List.cons_append] at hs
      exact NoDot.spaced_concat (by decide) (by decide) hs
  | @bare name t hn hs =>
    refine ⟨⟨?_, ?_⟩, (Clear.of_isIdentifier hn).spaced hs⟩
    · have h := parseType_name hn .absent
      rw [List.append_nil] at h
      rw [parseType_spaced hs, h]
      exact (namedWith_name hn).1
    · obtain ⟨u, c, rfl⟩ := List.eq_nil_or_concat name |>.resolve_left (by rintro rfl; cases hn)
      have hc := isNameChar_of_mem_identifier hn c (by simp)
      rw [List.concat_eq_append] at hs
      refine NoDot.spaced_concat (isBlank_of_isNameChar hc) ?_ hs
      rintro rfl
      exact absurd hc (by decide)
  | @named name b args t as hn hb hl hs =>
    obtain ⟨hargs, hargs'⟩ := typesWith_of_listed (hread hl)
    refine ⟨⟨?_, ?_⟩, (clear_name hn (.written hb hargs)).spaced hs⟩
    · rw [parseType_spaced hs, parseType_name hn (.written hb hargs),
        (namedWith_name hn).2 b args hb hargs, hargs']
      rfl
    · rw [arguments_concat] at hs
      exact NoDot.spaced_concat (by decide) (by decide) hs
  | @function p g ps a r _ _ _ _ _ _ hp hg hps ha _ ih =>
    obtain ⟨hr, hclear⟩ := ih
    refine ⟨⟨parseType_function hp hg hps ha hr.reads hclear, ?_⟩,
      clear_of_pieces hp hg (params_of_paramsText hps).1 ha hclear⟩
    have h := hr.noDot.append (t := p ++ (g ++ '(' :: (ps ++ ')' :: a)))
      (not_blank_of_parseType hr.reads)
    simpa only [List.append_assoc, List.cons_append] using h

/-- Members between bars are read as their union. -/
theorem read_of_joined {t : Text} {ts : List SourceType}
    (h : Joined '|' (MemberText TypeRead) t ts) : TypeRead t (.unionAll ts) := by
  have hmember {u : Text} {v : SourceType} (hm : MemberText TypeRead u v) :=
    read_of_memberText hm
  refine ⟨?_, h.noDot fun u v hm =>
    ⟨(hmember hm).1.noDot, not_blank_of_parseType (hmember hm).1.reads⟩⟩
  have hj : Joined '|' (fun u v => parseType u = .ok v ∧ Avoids (· == '|') u) t ts :=
    h.imp fun u v _ hm => ⟨(hmember hm).1.reads, (hmember hm).2.bar⟩
  have hblank : ∀ u v, parseType u = .ok v ∧ Avoids (· == '|') u → ¬Blank u :=
    fun u v hr => not_blank_of_parseType hr.1
  have htrim : Joined '|' (fun u v => parseType u = .ok v ∧ Avoids (· == '|') u) (trim t) ts :=
    hj.trim hblank fun hs hr => ⟨(parseType_spaced hs).symm.trans hr.1, hr.2.of_spaced hs⟩
  have hpieces : List.Forall₂ (fun u v => parseType u = .ok v ∧ Avoids (· == '|') u)
      (splitTop '|' (trim t)) ts := by
    apply htrim.forall₂ (by decide) (by decide)
    exact fun u v hr => ⟨(sealed_of_parseType hr.1).toBalanced, hr.2⟩
  rcases ts with _ | ⟨type, _ | ⟨second, types⟩⟩
  · cases h
  · -- a single member is the whole text
    cases h with
    | one hm =>
      rw [UnionType.unionAll, List.foldl_cons, List.foldl_nil, UnionType.base_union]
      exact (hmember hm).1.reads
    | cons _ hrest => cases hrest
  · have hmany : 1 < (splitTop '|' (trim t)).length := by
      rw [hpieces.length_eq]
      simp
    have hempty : (trim t).isEmpty = false := by
      simpa using mt trim_eq_nil_iff.1 (hj.not_blank hblank)
    have hread := mapM_eq_ok_iff.2 (hpieces.imp fun u v hr => hr.1)
    rw [parseType_eq, typeWith]
    simp only [hempty, hmany, if_true, hread]
    rfl

/-- A text that the grammar derives is read as the type that it stands for. -/
theorem read_of_typeText {t : Text} {type : SourceType} (h : TypeText t type) :
    TypeRead t type :=
  h.induction fun _ _ hj => read_of_joined hj

end UnionTyping
