/-
  UnionTyping/Proofs/Grammar/Spans.lean
  =====================================
  **Pieces are stretches of their text** — what a reader cuts out of a text, it cuts
  out in one stretch, and what it hands on to be read is not all of the text
  (`Part`).  A part has fewer bytes than its text, whatever characters the cut
  drops.
-/
import UnionTyping.Proofs.Grammar.SealedText
import UnionTyping.Proofs.Text.Bytes

namespace UnionTyping

namespace Text

/-! ### Parts -/

/-- `u` is a stretch of `t` and not all of it. -/
def Part (u t : Text) : Prop := u <:+: t ∧ u.length < t.length

section

variable {t u v : Text}

theorem Part.isInfix (h : Part u t) : u <:+: t := h.1

theorem Part.of_isInfix (h : u <:+: v) (hv : Part v t) : Part u t :=
  ⟨h.trans hv.1, Nat.lt_of_le_of_lt h.length_le hv.2⟩

theorem Part.trans_isInfix (h : Part u v) (hv : v <:+: t) : Part u t :=
  ⟨h.1.trans hv, Nat.lt_of_lt_of_le h.2 hv.length_le⟩

theorem part_of_eq_left {l r : Text} {c : Char} (h : t = l ++ c :: r) : Part l t := by
  subst h
  refine ⟨(List.prefix_append l (c :: r)).isInfix, ?_⟩
  simp only [List.length_append, List.length_cons]
  omega

theorem part_of_eq_right {l r : Text} {c : Char} (h : t = l ++ c :: r) : Part r t := by
  subst h
  refine ⟨⟨l ++ [c], [], by simp⟩, ?_⟩
  simp only [List.length_append, List.length_cons]
  omega

/-- A part has fewer bytes than the text. -/
theorem Part.utf8Length_lt (h : Part u t) : utf8Length u < utf8Length t := by
  obtain ⟨⟨l, r, rfl⟩, hlength⟩ := h
  have hl := length_le_utf8Length l
  have hr := length_le_utf8Length r
  simp only [List.length_append] at hlength
  rw [utf8Length_append, utf8Length_append]
  omega

/-! ### Trimming and brackets -/

theorem trimStart_isInfix (t : Text) : trimStart t <:+: t := (List.dropWhile_suffix _).isInfix

theorem trimEnd_isInfix (t : Text) : trimEnd t <:+: t := (trimEnd_isPrefix t).isInfix

theorem trim_isInfix (t : Text) : trim t <:+: t :=
  (trimEnd_isInfix _).trans (trimStart_isInfix t)

theorem isInfix_of_after? {lead r : Text} (h : after? lead t = some r) : r <:+: t := by
  rw [after?_eq_some_iff.1 h]
  exact (List.suffix_append lead r).isInfix

variable {b : Bracket} {before inner rest : Text}

theorem part_of_group? (h : group? b t = some (inner, rest)) : Part inner t ∧ Part rest t := by
  have ht := (eq_of_group? h).1
  have htail : Part (inner ++ b.closing :: rest) t := part_of_eq_right (l := []) ht
  exact ⟨(part_of_eq_left rfl).trans_isInfix htail.isInfix,
    (part_of_eq_right rfl).trans_isInfix htail.isInfix⟩

theorem part_of_unwrap? (h : unwrap? b t = some inner) : Part inner t := by
  have htail : Part (inner ++ [b.closing]) t := part_of_eq_right (l := []) (eq_of_unwrap? h)
  exact (part_of_eq_left rfl).trans_isInfix htail.isInfix

theorem stripParens_isInfix (t : Text) : stripParens t <:+: t := by
  fun_induction stripParens t with
  | case1 t u h ih => exact ih.trans ((part_of_unwrap? h).isInfix.trans (trim_isInfix t))
  | case2 t h => exact trim_isInfix t

theorem part_of_lastGroup? (h : lastGroup? b t = some (before, inner)) :
    Part before t ∧ Part inner t := by
  have ht := (eq_of_lastGroup? h).1
  exact ⟨part_of_eq_left ht, (part_of_eq_left rfl).trans_isInfix (part_of_eq_right ht).isInfix⟩

/-! ### Pieces between separators -/

theorem isInfix_of_mem_intercalate {d : Char} {ts : List Text} (hu : u ∈ ts) :
    u <:+: [d].intercalate ts := by
  induction ts with
  | nil => cases hu
  | cons t ts ih =>
    cases ts with
    | nil =>
      obtain rfl := List.mem_singleton.1 hu
      exact ⟨[], [], by simp [List.intercalate_singleton]⟩
    | cons v ts =>
      rw [List.intercalate_cons_cons, List.append_assoc, List.singleton_append]
      rcases List.mem_cons.1 hu with rfl | hu
      · exact (part_of_eq_left rfl).isInfix
      · exact (ih hu).trans (part_of_eq_right rfl).isInfix

theorem isInfix_of_mem_splitTop {d : Char} (hu : u ∈ splitTop d t) : u <:+: t := by
  have h := isInfix_of_mem_intercalate (d := d) hu
  rwa [intercalate_splitTop] at h

theorem part_of_mem_splitTop {d : Char} (hu : u ∈ splitTop d t) (h : 1 < (splitTop d t).length) :
    Part u t :=
  ⟨isInfix_of_mem_splitTop hu, length_of_mem_splitTop_of_two hu h⟩

theorem isInfix_of_mem_commaItems (hu : u ∈ commaItems t) : u <:+: t := by
  unfold commaItems at hu
  split at hu
  · cases hu
  · exact isInfix_of_mem_splitTop hu

end

end Text

open Text

variable {t : Text}

/-! ### Types and parameters -/

theorem isInfix_of_splitGenerics? {generics : Option Text} {rest : Text}
    (h : splitGenerics? t = some (generics, rest)) :
    (∀ inner, generics = some inner → inner <:+: t) ∧ rest <:+: t := by
  unfold splitGenerics? at h
  split at h
  · obtain ⟨⟨inner, r⟩, hg, he⟩ := Option.map_eq_some_iff.1 h
    obtain ⟨rfl, rfl⟩ := Prod.mk.inj he
    obtain ⟨hinner, hr⟩ := part_of_group? hg
    refine ⟨?_, (trimStart_isInfix r).trans hr.isInfix⟩
    rintro _ ⟨⟩
    exact hinner.isInfix
  · obtain ⟨rfl, rfl⟩ := Prod.mk.inj (Option.some.inj h)
    exact ⟨nofun, List.infix_rfl⟩

theorem splitPure_isInfix (t : Text) : (splitPure t).2 <:+: t := by
  obtain ⟨l, ht, _⟩ := exists_eq_append_splitPure t
  exact ⟨l, [], by rw [List.append_nil, ← ht]⟩

theorem part_of_functionShape? {shape : FunctionShape} (h : functionShape? t = some shape) :
    (∀ inner, shape.generics = some inner → inner <:+: t)
      ∧ Part shape.params t ∧ Part shape.result t := by
  simp only [functionShape?, Option.bind_eq_bind, Option.bind_eq_some_iff, Prod.exists] at h
  obtain ⟨generics, rest, hg, params, tail, hp, mode, result, ha, h⟩ := h
  obtain rfl := Option.some.inj h
  obtain ⟨hgenerics, hrest⟩ := isInfix_of_splitGenerics? hg
  have hrest := hrest.trans (splitPure_isInfix t)
  obtain ⟨hparams, htail⟩ := part_of_group? hp
  obtain ⟨arrow, _, hresult⟩ := eq_of_arrow? ha
  have hresult : result <:+: trimStart tail := ⟨arrow, [], by rw [List.append_nil, ← hresult]⟩
  have hresult := hresult.trans (trimStart_isInfix tail)
  exact ⟨fun inner hi => (hgenerics inner hi).trans (splitPure_isInfix t),
    hparams.trans_isInfix hrest, (Part.of_isInfix hresult htail).trans_isInfix hrest⟩

theorem splitVariadic_isInfix (t : Text) : (splitVariadic t).1 <:+: t := by
  have h : t = (splitVariadic t).1 ++ _ := eq_of_splitVariadic rfl
  exact ⟨[], _, h.symm⟩

theorem part_of_splitOnce? {c : Char} {l r : Text} (h : splitOnce? c t = some (l, r)) :
    Part l t ∧ Part r t :=
  ⟨part_of_eq_left (eq_of_splitOnce? h), part_of_eq_right (eq_of_splitOnce? h)⟩

/-! ### Expressions -/

theorem part_of_callForm? {shape : CallShape} (h : callForm? t = some shape) :
    Part shape.caller t ∧ shape.generics <:+: t ∧ Part shape.arguments t := by
  obtain ⟨called, blank, ht, _, hcalled⟩ := eq_of_callShape? (Option.filter_eq_some_iff.1 h).1
  rw [← List.append_assoc] at ht
  have hfront := (part_of_eq_left ht).trans_isInfix (trim_isInfix t)
  have hback := (part_of_eq_right ht).trans_isInfix (trim_isInfix t)
  have hcalled' : Part called t := .of_isInfix (List.prefix_append called blank).isInfix hfront
  refine ⟨?_, ?_, (part_of_eq_left rfl).trans_isInfix hback.isInfix⟩
  · rcases hcalled with ⟨_, rfl⟩ | ⟨blank', rfl, _⟩
    · exact hcalled'
    · refine .of_isInfix ?_ hcalled'
      exact (List.prefix_append _ blank').isInfix.trans (part_of_eq_left rfl).isInfix
  · rcases hcalled with ⟨hnil, _⟩ | ⟨blank', rfl, _⟩
    · rw [hnil]
      exact List.nil_infix
    · refine List.IsInfix.trans ?_ hcalled'.isInfix
      exact (part_of_eq_left rfl).isInfix.trans (part_of_eq_right rfl).isInfix

theorem part_of_memberForm? {parent : Text} {m : Name} (h : memberForm? t = some (parent, m)) :
    Part parent t := by
  obtain ⟨l, r, ht, rfl, _⟩ := eq_of_memberShape? (Option.filter_eq_some_iff.1 h).1
  exact .of_isInfix (trim_isInfix l) (part_of_eq_left ht)

theorem part_of_lambdaShape? {shape : LambdaShape} (h : lambdaShape? t = some shape) :
    (∀ inner, shape.generics = some inner → inner <:+: t) ∧ shape.params <:+: t
      ∧ (∀ result, shape.result = some result → result <:+: t) ∧ Part shape.body t := by
  simp only [lambdaShape?, Option.bind_eq_bind, Option.bind_eq_some_iff, Prod.exists] at h
  obtain ⟨generics, rest, hg, params, tail, hp, head, body, hb, signature, own, hs, result, hr,
    h⟩ := h
  obtain rfl := Option.some.inj h
  obtain ⟨hgenerics, hrest⟩ := isInfix_of_splitGenerics? hg
  obtain ⟨hparams, htail⟩ := part_of_group? hp
  have htail : Part (trim tail) t := (Part.of_isInfix (trim_isInfix tail) htail).trans_isInfix hrest
  obtain ⟨hhead, hbody⟩ := part_of_lastGroup? hb
  have hsignature : signature <:+: t := by
    have hs : signature <:+: trimEnd head := ⟨[], _, (eq_of_stem? hs).symm⟩
    exact hs.trans ((trimEnd_isInfix head).trans (hhead.isInfix.trans htail.isInfix))
  refine ⟨hgenerics, hparams.isInfix.trans hrest, ?_, hbody.trans_isInfix htail.isInfix⟩
  rintro _ rfl
  rcases eq_of_resultPart? hr with ⟨_, hnone⟩ | ⟨u, hu, hsome⟩
  · cases hnone
  · obtain rfl := Option.some.inj hsome
    have hu : u <:+: trim signature := (part_of_eq_right (l := []) hu).isInfix
    exact (trim_isInfix u).trans (hu.trans ((trim_isInfix signature).trans hsignature))

/-! ### Statements -/

theorem part_of_returnShape? {value : Text} (h : returnShape? t = some (some value)) :
    Part value t := by
  refine ⟨?_, length_of_returnShape? h⟩
  obtain ⟨blank, rfl, _⟩ := eq_of_returnShape? h
  rw [← List.append_assoc]
  exact (List.suffix_append ("return".toList ++ blank) value).isInfix

theorem part_of_declarationShape? {constant : Bool} {rest : Text}
    (h : declarationShape? t = some (constant, rest)) : Part rest t := by
  refine ⟨?_, length_of_declarationShape? h⟩
  obtain ⟨blank, rfl, _⟩ := eq_of_declarationShape? h
  rw [← List.append_assoc]
  exact (List.suffix_append (_ ++ blank) rest).isInfix

theorem part_of_cutAssignment {before after : Text} (h : cutAssignment t = some (before, after)) :
    Part before t ∧ Part after t :=
  ⟨part_of_eq_left (eq_of_cutAssignment h), part_of_eq_right (eq_of_cutAssignment h)⟩

/-- What stands behind the name of a declaration. -/
theorem isInfix_of_behindName (rest : Text) :
    trimStart (rest.dropWhile isNameChar) <:+: rest :=
  (trimStart_isInfix _).trans (List.dropWhile_suffix _).isInfix

end UnionTyping
