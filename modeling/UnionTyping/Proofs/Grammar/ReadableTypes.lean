/-
  UnionTyping/Proofs/Grammar/ReadableTypes.lean
  =============================================
  **Readable types are derived** — what is read as a type is a text of the
  grammar, so that the reader accepts the grammar and nothing else
  (`parseType_eq_ok_iff`).  The reader cuts at brackets of one kind, at commas and
  at bars, each time as if the piece stood alone; every piece turns out to be a
  text of the grammar because the texts inside it are, by induction over the
  length.
-/
import UnionTyping.Proofs.Grammar.DerivedTypes

namespace UnionTyping

open Text

/-! ### Lists -/

section

variable {α : Type} {d : Char} {R : Text → α → Prop} {t : Text} {as : List α}

theorem joined_of_splitTop (h : List.Forall₂ R (splitTop d t) as) : Joined d R t as := by
  rw [← intercalate_splitTop d t]
  exact joined_intercalate (splitOutside_ne_nil _ _ _ _) h

theorem listed_of_commaItems (h : List.Forall₂ R (commaItems t) as) : Listed R t as := by
  by_cases hb : Blank t
  · rw [commaItems, if_pos (allBlank_iff.2 hb)] at h
    rw [List.forall₂_nil_left_iff.1 h]
    exact .none hb
  · rw [commaItems_of_not_blank hb] at h
    exact .of_joined (joined_of_splitTop h)

end

/-! ### The pieces of a function type -/

theorem pureText_of_splitPure {t rest : Text} {isPure : Bool} (h : splitPure t = (isPure, rest)) :
    ∃ p, t = p ++ rest ∧ PureText p isPure := by
  unfold splitPure at h
  split at h
  · obtain ⟨rfl, rfl⟩ := Prod.mk.inj h
    exact ⟨[], rfl, .absent blank_nil⟩
  · next u hu =>
    simp only at h
    split at h
    · obtain ⟨rfl, rfl⟩ := Prod.mk.inj h
      obtain ⟨b, he, hb⟩ := exists_eq_append_trimStart u
      refine ⟨['p', 'u', 'r', 'e'] ++ b, ?_, .written (.mk blank_nil hb)⟩
      rw [List.append_assoc, ← he]
      exact after?_eq_some_iff.1 hu
    · obtain ⟨rfl, rfl⟩ := Prod.mk.inj h
      exact ⟨[], rfl, .absent blank_nil⟩

theorem genericsText_of_splitGenerics? {t rest : Text} {generics : Option Text} {ns : List Name}
    (h : splitGenerics? t = some (generics, rest)) (hg : genericNames generics = .ok ns) :
    ∃ g, t = g ++ rest ∧ GenericsText g ns := by
  rcases eq_of_splitGenerics? h with ⟨rfl, rfl⟩ | ⟨inner, b, rfl, rfl, hb⟩
  · obtain rfl := Except.ok.inj hg
    exact ⟨[], rfl, .absent⟩
  · refine ⟨'[' :: (inner ++ [']']) ++ b, by rw [List.append_assoc], ?_⟩
    exact .written (listed_of_commaItems ((isName_of_genericNames hg).imp fun _ _ hn =>
      nameText_iff.2 hn)) (.mk blank_nil hb)

theorem pieces_of_functionShape? {t : Text} {shape : FunctionShape} {ns : List Name}
    (h : functionShape? t = some shape) (hg : genericNames shape.generics = .ok ns) :
    ∃ p g a, t = p ++ (g ++ '(' :: (shape.params ++ ')' :: (a ++ shape.result)))
      ∧ PureText p shape.isPure ∧ GenericsText g ns ∧ ArrowText a shape.scope := by
  simp only [functionShape?, Option.bind_eq_bind, Option.bind_eq_some_iff, Prod.exists] at h
  obtain ⟨generics, rest, hs, params, tail, hgroup, scope, result, ha, h⟩ := h
  obtain rfl := Option.some.inj h
  obtain ⟨p, hp, hpure⟩ := pureText_of_splitPure (Prod.eta (splitPure t)).symm
  obtain ⟨g, hr, hgenerics⟩ := genericsText_of_splitGenerics? hs hg
  obtain ⟨b, hb, hblank⟩ := exists_eq_append_trimStart tail
  obtain ⟨arrow, hm, harrow⟩ := eq_of_arrow? ha
  refine ⟨p, g, b ++ arrow, ?_, hpure, hgenerics, arrowText_iff.2 ⟨arrow, hm, ?_⟩⟩
  · rw [List.append_assoc, ← harrow, ← hb]
    rw [(eq_of_group? hgroup).1] at hr
    exact hp.trans (congrArg (p ++ ·) hr)
  · exact .of_eq (by rw [List.append_nil]) hblank blank_nil

/-- What is left of parameters without their dots is a list of types. -/
theorem paramsText_of_splitVariadic {ps stem : Text} {variadic : Bool} {ts : List SourceType}
    (h : splitVariadic (trim ps) = (stem, variadic)) (hlone : variadic = true → ¬Blank stem)
    (hts : List.Forall₂ TypeText (commaItems stem) ts) : ParamsText TypeText ps variadic ts := by
  have he := eq_of_splitVariadic h
  obtain ⟨l, r, hps, hl, hr⟩ := exists_eq_append_trim ps
  have hpad {t a b b'} (ht : TypeText t a) (hb : Blank b) (hb' : Blank b') :
      TypeText (b ++ (t ++ b')) a := ht.spaced (.mk hb hb')
  cases variadic with
  | false =>
    rw [if_neg (by decide), List.append_nil] at he
    rw [← he] at hts
    rw [hps]
    rcases (listed_of_commaItems hts).joined with ⟨hb, rfl⟩ | hj
    · exact .fixed (.none (hl.append (hb.append hr)))
    · exact .fixed (.of_joined (hj.pad hpad hl hr))
  | true =>
    rw [if_pos rfl] at he
    rw [commaItems_of_not_blank (hlone rfl)] at hts
    have hj := (joined_of_splitTop hts).pad hpad hl blank_nil
    rw [List.append_nil] at hj
    have hv := ParamsText.variadic hj (.mk blank_nil hr)
    rw [hps, he]
    simpa only [List.append_assoc, List.nil_append] using hv

/-! ### Unions -/

/-- A text with bars at the top level is read as the union of what stands between
    them. -/
theorem forall₂_of_many {t : Text} {type : SourceType} (hmany : 1 < (splitTop '|' (trim t)).length)
    (h : parseType t = .ok type) :
    ∃ ts, List.Forall₂ (fun u v => parseType u = .ok v) (splitTop '|' (trim t)) ts
      ∧ type = .unionAll ts := by
  rw [parseType_eq, typeWith] at h
  simp only [hmany, if_true] at h
  split at h
  · cases h
  · obtain ⟨ts, hts, he⟩ := bind_eq_ok_iff.1 h
    exact ⟨ts, mapM_eq_ok_iff.1 hts, (Except.ok.inj he).symm⟩

/-- A type without a bar at the top level is a member. -/
theorem memberText_of_typeText {t : Text} {type : SourceType} (h : TypeText t type)
    (hbar : Avoids (· == '|') t) : MemberText TypeText t type := by
  cases h with
  | members hj =>
    cases hj with
    | one hm =>
      rw [UnionType.unionAll, List.foldl_cons, List.foldl_nil, UnionType.base_union]
      exact hm
    | @cons t u a as hm _ =>
      exfalso
      have hclear : Clear t := (read_of_memberText (hm.imp fun _ _ _ hr => read_of_typeText hr)).2
      have h := hbar t '|' u rfl hclear.atTop
      simp at h

/-- A function type without a bar at the top level has a member as its result. -/
theorem memberText_of_functionShape? {t : Text} {shape : FunctionShape} {ns : List Name}
    {params : Text} {variadic : Bool} {ts : List SourceType} {r : SourceType}
    (hbar : Avoids (· == '|') t) (hs : functionShape? t = some shape)
    (hg : genericNames shape.generics = .ok ns)
    (hv : splitVariadic (trim shape.params) = (params, variadic))
    (hlone : variadic = true → ¬Blank params) (hts : List.Forall₂ TypeText (commaItems params) ts)
    (hr : TypeText shape.result r) :
    MemberText TypeText t (.single (.function ⟨shape.scope, shape.isPure, variadic, ns⟩ ts r)) := by
  obtain ⟨p, g, a, rfl, hp, hgenerics, ha⟩ := pieces_of_functionShape? hs hg
  have hps := paramsText_of_splitVariadic hv hlone hts
  have hbalanced := (params_of_paramsText (hps.imp fun _ _ _ hu => read_of_typeText hu)).1
  have hfront : Sealed (p ++ (g ++ ('(' :: (shape.params ++ [')']) ++ a))) :=
    (clear_of_pureText hp).toSealed.append ((clear_of_genericsText hgenerics).toSealed.append
      ((sealed_group (b := .round) hbalanced (by decide)).append (clear_of_arrowText ha).toSealed))
  have hsealed := sealed_of_parseType (read_of_typeText hr).reads
  have hresult : Avoids (· == '|') shape.result := by
    refine (Avoids.of_append hfront.toBalanced ?_ (hsealed.fits _)).2
    simpa only [List.append_assoc, List.cons_append, List.nil_append] using hbar
  exact .function hp hgenerics hps ha (memberText_of_typeText hr hresult)

/-! ### Every readable type -/

/-- What is read as a type is derived by the grammar. -/
theorem typeText_of_parseType {t : Text} {type : SourceType} (h : parseType t = .ok type) :
    TypeText t type := by
  induction t using parseType.induct generalizing type with
  | case1 t ih =>
    have hlen := length_trim_le t
    have hinner {u : Text} {v : SourceType} (hu : u.length < t.length ∧ parseType u = .ok v) :
        TypeText u v := ih u hu.1 hu.2
    refine TypeText.spaced ?_ (spaced_trim t)
    by_cases hmany : 1 < (splitTop '|' (trim t)).length
    · obtain ⟨ts, hts, rfl⟩ := forall₂_of_many hmany h
      have hmem : List.Forall₂ (fun u v => u ∈ splitTop '|' (trim t) ∧ parseType u = .ok v)
          (splitTop '|' (trim t)) ts :=
        (List.forall₂_and_left _ _).2 ⟨fun _ hu => hu, hts⟩
      refine .members (joined_of_splitTop (hmem.imp ?_))
      rintro u v ⟨hu, hv⟩
      have hshort := length_of_mem_splitTop_of_two hu hmany
      exact memberText_of_typeText (hinner ⟨by omega, hv⟩)
        (avoids_of_mem_splitTop (by decide) (by decide) hu)
    · have hbar : Avoids (· == '|') (trim t) :=
        avoids_of_length_splitTop (by decide) (by decide) (by omega)
      have hm : MemberText TypeText (trim t) type := by
        cases typeForm_of_parseType h with
        | union hl _ => exact absurd hl hmany
        | group hu hr =>
          rw [eq_of_unwrap? hu]
          exact .group (hinner hr) (.refl _)
        | function hs hg hv hlone hps hr =>
          exact memberText_of_functionShape? hbar hs hg hv hlone
            (hps.imp fun _ _ hu => hinner hu) (hinner hr)
        | bare hn => exact .bare hn (.refl _)
        | named ht hn hb has =>
          rw [ht]
          exact .named hn hb (listed_of_commaItems (has.imp fun _ _ hu => hinner hu)) (.refl _)
      have hj := TypeText.members (.one hm)
      rwa [UnionType.unionAll, List.foldl_cons, List.foldl_nil, UnionType.base_union] at hj

/-- A text is read as a type exactly if the grammar derives it, and as the type
    that it then stands for. -/
theorem parseType_eq_ok_iff (t : Text) (type : SourceType) :
    parseType t = .ok type ↔ TypeText t type :=
  ⟨typeText_of_parseType, fun h => (read_of_typeText h).reads⟩

end UnionTyping
