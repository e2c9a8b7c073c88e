/-
  UnionTyping/Proofs/Grammar/Pieces.lean
  ======================================
  **Pieces have only words of their text** — whatever a shape cuts out of a text
  to be read, and every name that a form binds or looks up, is within the text.
  What stands between a piece and its surroundings is a bracket, a sign, a
  separator or, behind a keyword, a blank; no run of name characters goes on
  across it.
-/
import UnionTyping.Proofs.Grammar.SealedText
import UnionTyping.Proofs.Scan.Words

namespace UnionTyping

open Text

variable {t : Text}

/-! ### Expressions -/

theorem within_of_callForm? {shape : CallShape} (h : callForm? t = some shape) :
    Within shape.caller t ∧ Within shape.arguments t := by
  obtain ⟨called, hg, _, hcase⟩ := callShape?_eq_some_iff.1 (Option.filter_eq_some_iff.1 h).1
  obtain ⟨hcalled, harguments⟩ := within_of_lastGroup? hg
  have hcalled := (within_trimEnd called).trans (hcalled.trans (within_trim t))
  refine ⟨?_, harguments.trans (within_trim t)⟩
  rcases hcase with ⟨_, hcaller, _⟩ | ⟨caller, hg', _, hcaller⟩
  · rwa [hcaller]
  · rw [hcaller]
    exact (within_trimEnd caller).trans ((within_of_lastGroup? hg').1.trans hcalled)

theorem within_of_memberForm? {parent : Text} {m : Name}
    (h : memberForm? t = some (parent, m)) : Within parent t := by
  obtain ⟨l, r, rfl, rfl, _⟩ := eq_of_memberShape? (Option.filter_eq_some_iff.1 h).1
  exact (within_trim l).trans (within_left (by decide) l r)

theorem within_of_referenceShape? {x : Name} (h : referenceShape? t = some x) : Within x t := by
  rw [eq_of_referenceShape? h]
  exact within_cons (by decide) x

/-! ### Lambdas -/

theorem within_of_splitGenerics? {generics : Option Text} {rest : Text}
    (h : splitGenerics? t = some (generics, rest)) : Within rest t := by
  unfold splitGenerics? at h
  split at h
  · obtain ⟨⟨inner, r⟩, hg, he⟩ := Option.map_eq_some_iff.1 h
    obtain ⟨_, rfl⟩ := Prod.mk.inj he
    exact (within_trimStart r).trans (within_of_group? hg).2
  · obtain ⟨_, rfl⟩ := Prod.mk.inj (Option.some.inj h)
    exact within_refl t

theorem within_of_lambdaShape? {shape : LambdaShape} (h : lambdaShape? t = some shape) :
    Within shape.params t ∧ Within shape.body t := by
  simp only [lambdaShape?, Option.bind_eq_bind, Option.bind_eq_some_iff, Prod.exists] at h
  obtain ⟨generics, rest, hg, params, tail, hp, head, body, hb, _, _, _, _, _, h⟩ := h
  obtain rfl := Option.some.inj h
  have hrest := within_of_splitGenerics? hg
  obtain ⟨hparams, htail⟩ := within_of_group? hp
  have hbody := (within_of_lastGroup? hb).2.trans (within_trim tail)
  exact ⟨hparams.trans hrest, hbody.trans (htail.trans hrest)⟩

theorem within_of_mem_bodyItems? {items : List Text} (h : bodyItems? t = some items) :
    ∀ u ∈ items, Within u t := fun u hu =>
  (within_of_mem_splitTop (by decide) (mem_splitTop_of_mem_bodyItems? h u hu)).trans
    (within_trim t)

theorem within_of_parameterParts {x : Name} {declared : Option SourceType}
    (h : parameterParts t = .ok (x, declared)) : Within x t := by
  rcases (pieces_of_parameterParts h).2 with ⟨rfl, _⟩ | ⟨l, r, _, ht, rfl, _⟩
  · exact within_trim t
  · have hl := within_left (c := ':') (by decide) l r
    rw [← ht] at hl
    exact (within_trim l).trans (hl.trans (within_trim t))

theorem within_of_parameterItem {isLast variadic : Bool} {p : Parameter}
    (h : parameterItem isLast t = .ok (p, variadic)) : Within p.name t := by
  unfold parameterItem at h
  rcases hv : splitVariadic (trim t) with ⟨stem, v⟩
  rw [hv] at h
  simp only at h
  split at h
  · cases h
  obtain ⟨⟨x, declared⟩, hparts, h⟩ := bind_eq_ok_iff.1 h
  obtain ⟨type, _, h⟩ := bind_eq_ok_iff.1 h
  obtain ⟨rfl, rfl⟩ := Prod.mk.inj (Except.ok.inj h)
  have hstem : Within stem t := by
    have ht := eq_of_splitVariadic hv
    refine Within.trans ?_ (within_trim t)
    rw [ht]
    cases v with
    | false => exact within_append_blank blank_nil stem
    | true => exact within_left (by decide) stem ['.', '.']
  refine (within_of_parameterParts hparts).trans (Within.trans ?_ hstem)
  split
  · exact within_trimEnd stem
  · exact within_refl stem

theorem within_of_parameterItems {items : List Text} {ps : List Parameter} {variadic : Bool}
    (h : parameterItems items = .ok (ps, variadic)) : ∀ p ∈ ps, ∃ u ∈ items, Within p.name u := by
  induction items generalizing ps variadic with
  | nil =>
    obtain ⟨rfl, rfl⟩ := Prod.mk.inj (Except.ok.inj h)
    exact fun p hp => by cases hp
  | cons item items ih =>
    unfold parameterItems at h
    obtain ⟨⟨p, v⟩, hitem, h⟩ := bind_eq_ok_iff.1 h
    have hp : ∃ u ∈ item :: items, Within p.name u :=
      ⟨item, List.mem_cons_self .., within_of_parameterItem hitem⟩
    simp only at h
    split at h
    · obtain ⟨rfl, rfl⟩ := Prod.mk.inj (Except.ok.inj h)
      exact List.forall_mem_singleton.2 hp
    · obtain ⟨⟨qs, v'⟩, hitems, hpair⟩ := bind_eq_ok_iff.1 h
      obtain ⟨rfl, rfl⟩ := Prod.mk.inj (Except.ok.inj hpair)
      refine List.forall_mem_cons.2 ⟨hp, fun q hq => ?_⟩
      obtain ⟨u, hu, hw⟩ := ih hitems q hq
      exact ⟨u, List.mem_cons_of_mem _ hu, hw⟩

theorem within_of_parseParameters {ps : List Parameter} {variadic : Bool}
    (h : parseParameters t = .ok (ps, variadic)) : ∀ p ∈ ps, Within p.name t := by
  intro p hp
  obtain ⟨u, hu, hw⟩ := within_of_parameterItems h p hp
  exact hw.trans (within_of_mem_commaItems hu)

/-! ### Statements -/

theorem within_after_blank {word blank rest : Text} (hb : Blank blank) (hne : blank ≠ []) :
    Within rest (word ++ (blank ++ rest)) := by
  obtain ⟨c, u, rfl⟩ := List.exists_cons_of_ne_nil hne
  have hc := isNameChar_of_isBlank (hb c (List.mem_cons_self ..))
  have hu : Blank u := fun d hd => hb d (List.mem_cons_of_mem _ hd)
  exact (within_blank_append hu rest).trans (within_right hc word (u ++ rest))

theorem within_of_returnShape? {value : Text} (h : returnShape? t = some (some value)) :
    Within value t := by
  obtain ⟨blank, rfl, hb, hne⟩ := eq_of_returnShape? h
  exact within_after_blank hb hne

theorem within_of_declarationShape? {constant : Bool} {rest : Text}
    (h : declarationShape? t = some (constant, rest)) : Within rest t := by
  obtain ⟨blank, rfl, hb, hne⟩ := eq_of_declarationShape? h
  exact within_after_blank hb hne

/-- A run of name characters at the start and what stands behind it. -/
theorem within_takeWhile_dropWhile (t : Text) :
    Within (t.takeWhile isNameChar) t ∧ Within (t.dropWhile isNameChar) t := by
  have ht : t.takeWhile isNameChar ++ t.dropWhile isNameChar = t :=
    List.takeWhile_append_dropWhile
  have hhead := List.head?_dropWhile_not isNameChar t
  rcases hd : t.dropWhile isNameChar with _ | ⟨c, u⟩
  · rw [hd, List.append_nil] at ht
    rw [ht]
    exact ⟨within_refl t, List.nil_subset _⟩
  · rw [hd] at ht hhead
    have hc : isNameChar c = false := by simpa using hhead
    have hl := within_left hc (t.takeWhile isNameChar) u
    have hr := within_right hc (t.takeWhile isNameChar) u
    rw [ht] at hl hr
    refine ⟨hl, Within.trans ?_ hr⟩
    rw [Within, words_cons hc]
    exact List.Subset.refl _

theorem within_of_cutAssignment {before after : Text}
    (h : cutAssignment t = some (before, after)) : Within before t ∧ Within after t := by
  rw [eq_of_cutAssignment h]
  exact ⟨within_left (by decide) before after, within_right (by decide) before after⟩

theorem within_of_dereferenceShape? {x : Name} (h : dereferenceShape? t = some x) :
    Within x t := by
  obtain ⟨u, rfl, rfl, _⟩ := eq_of_dereferenceShape? h
  exact (within_trim u).trans (within_cons (by decide) u)

end UnionTyping
