/-
  UnionTyping/Proofs/Grammar/SealedText.lean
  ==========================================
  **Readable texts are sealed** — every text that is read as an expression is
  balanced, begins with no angle bracket and has no comma or semicolon at the top
  level (`sealed_of_reads`).  Each shape gives its text back from its pieces, and
  sealed pieces are put together with brackets, blanks and signs to a sealed
  text.
-/
import UnionTyping.Proofs.Grammar.Reads

namespace UnionTyping

open Text

/-! ### Texts from their pieces -/

/-- Generic arguments stand behind something, so that they do not begin a text. -/
theorem Text.Sealed.append_angle {t g : Text} (ht : Sealed t) (hne : t ≠ []) (hg : Balanced g)
    (hc : ClosesAfter .angle g) (htip : (scan .start t).isTip '<' = false) :
    Sealed (t ++ '<' :: (g ++ ['>'])) := by
  have hfit : (scan .start t).Fits ('<' :: (g ++ ['>'])) := Nesting.fits_cons htip
  refine ⟨ht.toBalanced.append (hg.group (b := .angle) hc) hfit, ?_, ?_⟩
  · intro c hc
    obtain ⟨d, u, rfl⟩ := List.exists_cons_of_ne_nil hne
    exact ht.head c hc
  · exact Avoids.append ht.toBalanced ht.separators
      (avoids_group (b := .angle) hg (by decide)) hfit

/-- The pieces of a call make up its text. -/
theorem eq_of_callShape? {t : Text} {shape : CallShape} (h : callShape? t = some shape) :
    ∃ called blank, trim t = called ++ (blank ++ '(' :: (shape.arguments ++ [')'])) ∧ Blank blank
      ∧ ((shape.generics = [] ∧ called = shape.caller)
        ∨ ∃ blank', called = (shape.caller ++ blank') ++ '<' :: (shape.generics ++ ['>'])
          ∧ Blank blank' ∧ shape.caller ++ blank' ≠ []
          ∧ (scan .start (shape.caller ++ blank')).isTip '<' = false
          ∧ ClosesAfter .angle shape.generics) := by
  obtain ⟨called, hg, _, hcase⟩ := callShape?_eq_some_iff.1 h
  obtain ⟨ht, _⟩ := eq_of_lastGroup? hg
  obtain ⟨blank, hb, hbl⟩ := exists_eq_trimEnd_append called
  rw [hb, List.append_assoc] at ht
  refine ⟨trimEnd called, blank, ht, hbl, ?_⟩
  rcases hcase with ⟨hnil, hcaller, _⟩ | ⟨caller, hg', hne, hcaller⟩
  · exact Or.inl ⟨hnil, hcaller.symm⟩
  · obtain ⟨hcalled, _, htip, hc⟩ := eq_of_lastGroup? hg'
    obtain ⟨blank', hb', hbl'⟩ := exists_eq_trimEnd_append caller
    rw [← hcaller] at hb'
    rw [hb'] at hcalled htip hne
    exact Or.inr ⟨blank', hcalled, hbl', hne, htip, hc⟩

theorem eq_of_memberShape? {t parent : Text} {name : Name}
    (h : memberShape? t = some (parent, name)) :
    ∃ l r, t = l ++ '.' :: r ∧ parent = trim l ∧ name = trim r ∧ isIdentifier name = true := by
  simp only [memberShape?, Option.bind_eq_bind, Option.bind_eq_some_iff, Prod.exists] at h
  obtain ⟨l, r, hc, h⟩ := h
  obtain ⟨c, ht, hp⟩ := eq_of_cutLast hc
  simp only [Bool.and_eq_true, beq_iff_eq] at hp
  obtain ⟨rfl, _⟩ := hp
  split at h
  · next hid =>
    obtain ⟨rfl, rfl⟩ := Prod.mk.inj (Option.some.inj h)
    simp only [Bool.and_eq_true] at hid
    exact ⟨l, r, ht, rfl, rfl, hid.2⟩
  · cases h

theorem eq_of_stem? {t signature : Text} {own : Bool} (h : stem? t = some (signature, own)) :
    t = signature ++ if own then ['=', '>'] else ['~', '>'] := by
  simp only [stem?, Option.bind_eq_bind, Option.bind_eq_some_iff] at h
  obtain ⟨head, hh, h⟩ := h
  rw [before?_eq_some_iff] at hh
  split at h
  · next s hs =>
    obtain ⟨rfl, rfl⟩ := Prod.mk.inj (Option.some.inj h)
    rw [hh, before?_eq_some_iff.1 hs]
    simp
  · obtain ⟨s, hs, he⟩ := Option.map_eq_some_iff.1 h
    obtain ⟨rfl, rfl⟩ := Prod.mk.inj he
    rw [hh, before?_eq_some_iff.1 hs]
    simp

theorem eq_of_resultPart? {t : Text} {result : Option Text} (h : resultPart? t = some result) :
    (trim t = [] ∧ result = none) ∨ ∃ u, trim t = ':' :: u ∧ result = some (trim u) := by
  unfold resultPart? at h
  simp only at h
  split at h
  · next he => exact Or.inl ⟨List.isEmpty_iff.1 he, (Option.some.inj h).symm⟩
  · obtain ⟨u, hu, rfl⟩ := Option.map_eq_some_iff.1 h
    exact Or.inr ⟨u, after?_eq_some_iff.1 hu, rfl⟩

theorem eq_of_afterKeyword? {word t rest : Text} (h : afterKeyword? word t = some rest) :
    ∃ blank, t = word ++ (blank ++ rest) ∧ Blank blank ∧ blank ≠ [] := by
  unfold afterKeyword? at h
  split at h
  · next c r ha =>
    split at h
    · next hc =>
      obtain rfl := Option.some.inj h
      obtain ⟨blank, hb, hbl⟩ := exists_eq_append_trimStart (c :: r)
      refine ⟨blank, ?_, hbl, ?_⟩
      · rw [← hb]
        exact after?_eq_some_iff.1 ha
      · rintro rfl
        have hhead : isBlank c = false := by
          apply head?_trimStart (t := c :: r)
          rw [← List.nil_append (trimStart (c :: r)), ← hb]
          rfl
        rw [hhead] at hc
        cases hc
    · cases h
  · cases h

theorem eq_of_returnShape? {t value : Text} (h : returnShape? t = some (some value)) :
    ∃ blank, t = "return".toList ++ (blank ++ value) ∧ Blank blank ∧ blank ≠ [] := by
  unfold returnShape? at h
  split at h
  · cases h
  · split at h
    · next ha =>
      obtain rfl := Option.some.inj (Option.some.inj h)
      exact eq_of_afterKeyword? ha
    · cases h

theorem eq_of_declarationShape? {t rest : Text} {constant : Bool}
    (h : declarationShape? t = some (constant, rest)) :
    ∃ blank, t = (if constant then "const".toList else "var".toList) ++ (blank ++ rest)
      ∧ Blank blank ∧ blank ≠ [] := by
  unfold declarationShape? at h
  split at h
  · next ha =>
    obtain ⟨rfl, rfl⟩ := Prod.mk.inj (Option.some.inj h)
    exact eq_of_afterKeyword? ha
  · obtain ⟨r, ha, he⟩ := Option.map_eq_some_iff.1 h
    obtain ⟨rfl, rfl⟩ := Prod.mk.inj he
    exact eq_of_afterKeyword? ha

theorem eq_of_cutAssignment {t l r : Text} (h : cutAssignment t = some (l, r)) :
    t = l ++ '=' :: r := by
  obtain ⟨c, ht, hp⟩ := eq_of_cutFirst h
  simp only [isAssignment, Bool.and_eq_true, beq_iff_eq] at hp
  obtain ⟨⟨⟨rfl, _⟩, _⟩, _⟩ := hp
  exact ht

theorem eq_of_dereferenceShape? {t : Text} {name : Name} (h : dereferenceShape? t = some name) :
    ∃ u, t = '*' :: u ∧ trim u = name ∧ isName name = true := by
  simp only [dereferenceShape?, Option.bind_eq_bind, Option.bind_eq_some_iff] at h
  obtain ⟨u, hu, h⟩ := h
  split at h
  · next hn =>
    obtain rfl := Option.some.inj h
    exact ⟨u, after?_eq_some_iff.1 hu, rfl, hn⟩
  · cases h

/-- The statements of a body, with semicolons between them and perhaps behind. -/
theorem balanced_of_bodyItems? {t : Text} {items : List Text} (h : bodyItems? t = some items)
    (hs : ∀ u ∈ items, Sealed u) : Balanced t := by
  apply balanced_of_trim
  rw [← intercalate_splitTop ';' (trim t)]
  apply balanced_intercalate (by decide)
  rcases splitTop_of_bodyItems? h with hp | ⟨blank, hb, hp⟩
  · rwa [hp]
  · rw [hp, List.forall_mem_append, List.forall_mem_singleton]
    exact ⟨hs, sealed_of_blank hb⟩

/-! ### Form by form -/

section

variable {t : Text}

theorem sealed_of_callForm? {shape : CallShape} {gs : List SourceType}
    (h : callForm? t = some shape) (hcaller : Sealed shape.caller)
    (hg : (commaItems shape.generics).mapM parseType = .ok gs)
    (ha : ∀ u ∈ commaItems shape.arguments, Sealed u) : Sealed t := by
  obtain ⟨called, blank, ht, hb, hcalled⟩ := eq_of_callShape? (Option.filter_eq_some_iff.1 h).1
  have hgenerics : Balanced shape.generics := by
    apply balanced_of_commaItems
    intro u hu
    obtain ⟨_, _, hr⟩ := exists_of_forall₂_left (mapM_eq_ok_iff.1 hg) u hu
    exact sealed_of_parseType hr
  have hsealed : Sealed called := by
    rcases hcalled with ⟨_, rfl⟩ | ⟨blank', rfl, hb', hne, htip, hc⟩
    · exact hcaller
    · exact (hcaller.append (sealed_of_blank hb')).append_angle hne hgenerics hc htip
  apply sealed_of_trim
  rw [ht]
  exact hsealed.append ((sealed_of_blank hb).append
    (sealed_group (b := .round) (balanced_of_commaItems ha) (by decide)))

theorem sealed_of_memberForm? {parent : Text} {name : Name}
    (h : memberForm? t = some (parent, name)) (hp : Sealed parent) : Sealed t := by
  obtain ⟨l, r, rfl, rfl, rfl, hid⟩ := eq_of_memberShape? (Option.filter_eq_some_iff.1 h).1
  have hdot : Sealed ['.'] := sealed_of_plain (by decide)
  exact (sealed_of_trim hp).append (hdot.append (sealed_of_trim (sealed_of_isIdentifier hid)))

theorem sealed_signature {signature : Text} {result : Option Text}
    {declared : Option SourceType} (h : resultPart? signature = some result)
    (hd : result.mapM parseType = .ok declared) : Sealed signature := by
  apply sealed_of_trim
  rcases eq_of_resultPart? h with ⟨he, _⟩ | ⟨u, he, rfl⟩
  · rw [he]
    exact sealed_nil
  · rw [he]
    have hcolon : Sealed [':'] := sealed_of_plain (by decide)
    rw [Option.mapM_some] at hd
    cases hu : parseType (trim u) with
    | error e =>
      rw [hu] at hd
      cases hd
    | ok type => exact hcolon.append (sealed_of_trim (sealed_of_parseType hu))

theorem sealed_of_lambdaShape? {shape : LambdaShape} {generics : List Name}
    {declared : Option SourceType} (h : lambdaShape? t = some shape)
    (hg : genericNames shape.generics = .ok generics) (hp : Balanced shape.params)
    (hd : shape.result.mapM parseType = .ok declared) (hb : Balanced shape.body) : Sealed t := by
  simp only [lambdaShape?, Option.bind_eq_bind, Option.bind_eq_some_iff, Prod.exists] at h
  obtain ⟨gens, rest, hs, params, tail, hgroup, head, body, hlast, signature, own, hstem, result,
    hr, h⟩ := h
  obtain rfl := Option.some.inj h
  obtain ⟨l₁, h₁, hl₁, _⟩ := sealed_of_splitGenerics? hs hg
  obtain ⟨h₂, _⟩ := eq_of_group? hgroup
  obtain ⟨h₃, _⟩ := eq_of_lastGroup? hlast
  obtain ⟨blank, h₄, hb₄⟩ := exists_eq_trimEnd_append head
  have harrow : Sealed (if own then ['=', '>'] else ['~', '>']) := by
    cases own with
    | true => exact sealed_arrow (Or.inr rfl)
    | false => exact sealed_arrow (Or.inl rfl)
  have hhead : Sealed head := by
    rw [h₄, eq_of_stem? hstem]
    exact ((sealed_signature hr hd).append harrow).append (sealed_of_blank hb₄)
  have htail : Sealed tail := by
    apply sealed_of_trim
    rw [h₃]
    exact hhead.append (sealed_group (b := .curly) hb (by decide))
  have hround : Sealed ('(' :: (params ++ [')'])) := sealed_group (b := .round) hp (by decide)
  have heq : t = l₁ ++ (('(' :: (params ++ [')'])) ++ tail) := by
    rw [h₁, h₂]
    simp [Bracket.opening, Bracket.closing]
  rw [heq]
  exact hl₁.append (hround.append htail)

theorem sealed_of_returnShape? {value : Text} (h : returnShape? t = some (some value))
    (hv : Sealed value) : Sealed t := by
  obtain ⟨blank, rfl, hb, _⟩ := eq_of_returnShape? h
  have hword : Sealed "return".toList := sealed_of_nameChars (by decide)
  exact hword.append ((sealed_of_blank hb).append hv)

theorem sealed_of_writtenType {before : Text} {declared : Option SourceType}
    (h : Form.writtenType before = .ok declared) : Sealed before := by
  apply sealed_of_trim
  unfold Form.writtenType at h
  simp only at h
  split at h
  · next he =>
    rw [List.isEmpty_iff.1 he]
    exact sealed_nil
  · split at h
    · cases h
    · next u hu =>
      obtain ⟨type, htype, _⟩ := bind_eq_ok_iff.1 h
      rw [after?_eq_some_iff.1 hu]
      have hcolon : Sealed [':'] := sealed_of_plain (by decide)
      exact hcolon.append (sealed_of_parseType htype)

theorem sealed_assigned {before after : Text} (hb : Sealed before) (ha : Sealed after) :
    Sealed (before ++ '=' :: after) := by
  have hsign : Sealed ['='] := sealed_of_plain (by decide)
  exact hb.append (hsign.append ha)

theorem sealed_of_declarationShape? {rest before value : Text} {constant : Bool}
    {declared : Option SourceType} (h : declarationShape? t = some (constant, rest))
    (hc : cutAssignment (trimStart (rest.dropWhile isNameChar)) = some (before, value))
    (hd : Form.writtenType before = .ok declared) (hv : Sealed value) : Sealed t := by
  obtain ⟨blank, rfl, hb, _⟩ := eq_of_declarationShape? h
  obtain ⟨blank', hb', hbl'⟩ := exists_eq_append_trimStart (rest.dropWhile isNameChar)
  have hword : Sealed (if constant then "const".toList else "var".toList) := by
    cases constant <;> exact sealed_of_nameChars (by decide)
  have hname : Sealed (rest.takeWhile isNameChar) :=
    sealed_of_nameChars fun c hm => List.mem_takeWhile_imp hm
  have hrest : Sealed (rest.dropWhile isNameChar) := by
    rw [hb', eq_of_cutAssignment hc]
    exact (sealed_of_blank hbl').append (sealed_assigned (sealed_of_writtenType hd) hv)
  rw [← List.takeWhile_append_dropWhile (p := isNameChar) (l := rest)]
  exact hword.append ((sealed_of_blank hb).append (hname.append hrest))

end

/-! ### Every reading -/

theorem Chain.forall_left {P : Text → Prop} {ts : List Text} {ns : List Node}
    {env env' : TypeEnv} {R : Reading.Relation} (h : Chain R ts env ns env')
    (hR : ∀ u e m e', R u e m e' → P u) : ∀ u ∈ ts, P u := by
  intro u hu
  obtain ⟨_, _, hp⟩ := exists_of_forall₂_left (h.forall₂ (P := fun u _ => P u) hR) u hu
  exact hp

/-- A readable text is sealed. -/
theorem sealed_of_reads {t : Text} {env env' : TypeEnv} {n : Node} (h : Reads t env n env') :
    Sealed t := by
  refine reads_induction (P := fun t _ _ _ => Sealed t) ?_ h
  intro t env k n env' hk hf
  have hfits := fits_of_formShape? hk
  have hchain {ts : List Text} {ns : List Node} {e e' : TypeEnv}
      (h : Chain (fun u e m e' => Reads u e m e' ∧ Sealed u) ts e ns e') : ∀ u ∈ ts, Sealed u :=
    h.forall_left fun _ _ _ _ hu => hu.2
  apply sealed_of_stripParens
  cases hf with
  | call hf hg ha => exact sealed_of_callForm? hfits hf.2 hg (hchain ha)
  | number =>
    exact sealed_of_forall (p := isNumeralChar) (by decide) (by decide)
      (isNumeralChar_of_isNumeral hfits)
  | string =>
    obtain ⟨ht, hc⟩ := quoted?_eq_some_iff.1 hfits
    rw [ht]
    exact sealed_quoted hc
  | reference hn =>
    rw [eq_of_referenceShape? hfits]
    have hsign : Sealed ['&'] := sealed_of_plain (by decide)
    exact hsign.append (sealed_of_isName hn)
  | list he =>
    rw [eq_of_unwrap? hfits]
    exact sealed_group (balanced_of_commaItems (hchain he)) (by decide)
  | lambda hg hp hd hi hc =>
    exact sealed_of_lambdaShape? hfits hg (balanced_of_parseParameters hp) hd
      (balanced_of_bodyItems? hi (hchain hc))
  | short hb =>
    rw [eq_of_unwrap? hfits]
    exact sealed_group hb.2.toBalanced (by decide)
  | member hp => exact sealed_of_memberForm? hfits hp.2
  | giveBack =>
    have ht : stripParens t = "return".toList := by
      have hr : returnShape? (stripParens t) = some none := hfits
      unfold returnShape? at hr
      split at hr
      · assumption
      · split at hr <;> cases hr
    rw [ht]
    exact sealed_of_nameChars (by decide)
  | giveValue hv => exact sealed_of_returnShape? hfits hv.2
  | declaration _ hc hd hv => exact sealed_of_declarationShape? hfits hc hd hv.2
  | assignment htarget hv =>
    rw [eq_of_cutAssignment hfits]
    refine sealed_assigned (sealed_of_stripParens ?_) hv.2
    cases htarget with
    | dereference hd =>
      obtain ⟨u, hu, hn, hname⟩ := eq_of_dereferenceShape? hd
      rw [hu]
      have hstar : Sealed ['*'] := sealed_of_plain (by decide)
      refine hstar.append (sealed_of_trim ?_)
      rw [hn]
      exact sealed_of_isName hname
    | var _ hn => exact sealed_of_isName hn
    | member _ _ hm hp => exact sealed_of_memberForm? hm hp.2
  | var => exact sealed_of_isName hfits

/-! ### What a scan of a readable text sees -/

theorem exists_of_mem_steps {s : Nesting} {i : Nat} {t : Text} {step : Step}
    (h : step ∈ steps s i t) :
    ∃ l r, t = l ++ step.char :: r ∧ step.before = scan s l := by
  induction t generalizing s i with
  | nil => cases h
  | cons c t ih =>
    rcases List.mem_cons.1 h with rfl | h
    · exact ⟨[], t, rfl, rfl⟩
    · obtain ⟨l, r, rfl, hb⟩ := ih h
      exact ⟨c :: l, r, rfl, hb⟩

/-- No step of a scan of a sealed text leads below the top level, and none passes
    a separator there. -/
theorem Text.Sealed.steps {t : Text} (h : Sealed t) :
    (∀ step ∈ steps .start 0 t, ∀ b, 0 ≤ step.after.depth b)
      ∧ ∀ step ∈ UnionTyping.steps .start 0 t, step.before.atTop = true →
        isSeparator step.char = false := by
  constructor
  · intro step hs b
    obtain ⟨l, r, rfl, hb⟩ := exists_of_mem_steps hs
    have hp := h.nonneg (l ++ [step.char]) ⟨r, by simp⟩ b
    rwa [scan_append, ← hb] at hp
  · intro step hs htop
    obtain ⟨l, r, rfl, hb⟩ := exists_of_mem_steps hs
    rw [hb] at htop
    exact h.separators l step.char r rfl htop

/-- A text with a valid answer is balanced in all brackets and outside strings,
    and has no separator at the top level. -/
theorem scan_of_valid (t : Text) (env : TypeEnv) (n : Node) (h : (read t env).result = .ok n)
    (hv : n.isInvalid = false) :
    (∀ step ∈ steps .start 0 t, ∀ b, 0 ≤ step.after.depth b)
      ∧ (scan .start t).atTop = true
      ∧ ∀ step ∈ steps .start 0 t, step.before.atTop = true →
        step.char ≠ ',' ∧ step.char ≠ ';' := by
  have hs := sealed_of_reads (reads_of_read h hv)
  refine ⟨hs.steps.1, hs.atTop, ?_⟩
  intro step hstep htop
  have hsep := hs.steps.2 step hstep htop
  constructor
  · intro hc
    rw [hc] at hsep
    cases hsep
  · intro hc
    rw [hc] at hsep
    cases hsep

/-- Brackets and separators in strings and in the types of parameters. -/
theorem scan_of_valid_list :
    ∃ n, (read "\x7blength(\"a),(;\"), (f:(list[number])=>any)~>\x7bvar y = f;\x7d\x7d".toList
        .initial).result = .ok n
      ∧ n.isInvalid = false
      ∧ (∀ step ∈ steps .start 0
          "\x7blength(\"a),(;\"), (f:(list[number])=>any)~>\x7bvar y = f;\x7d\x7d".toList,
        ∀ b, 0 ≤ step.after.depth b)
      ∧ (scan .start
          "\x7blength(\"a),(;\"), (f:(list[number])=>any)~>\x7bvar y = f;\x7d\x7d".toList).atTop = true
      ∧ ∀ step ∈ steps .start 0
          "\x7blength(\"a),(;\"), (f:(list[number])=>any)~>\x7bvar y = f;\x7d\x7d".toList,
        step.before.atTop = true → step.char ≠ ',' ∧ step.char ≠ ';' := by
  have h : (read "\x7blength(\"a),(;\"), (f:(list[number])=>any)~>\x7bvar y = f;\x7d\x7d".toList
      .initial).node?.isSome = true := by decide +kernel
  obtain ⟨n, hn⟩ := Option.isSome_iff_exists.1 h
  obtain ⟨hr, hv⟩ := Reading.node?_eq_some_iff.1 hn
  exact ⟨n, hr, hv, scan_of_valid _ .initial n hr hv⟩

end UnionTyping
