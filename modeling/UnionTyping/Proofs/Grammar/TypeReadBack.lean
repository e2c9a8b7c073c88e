/-
  UnionTyping/Proofs/Grammar/TypeReadBack.lean
  ============================================
  **Types read back** — the canonical text of a canonical type is a text of the
  grammar that stands for that type, and is therefore read as that type
  (`parseType_text`).  The derivation follows the type; a result with several
  entries stands in parentheses, because it has to be a member.  Hence reading a
  type and writing it down are inverse on everything that can be read.
-/
import UnionTyping.Proofs.Grammar.DerivedTypes

namespace UnionTyping

open Text

/-! ### How a canonical text begins and ends -/

/-- The text does not begin with a blank and ends with a bracket that no angle
    is. -/
structure Text.Enclosed (t : Text) : Prop where
  head : ∃ c, t.head? = some c ∧ isBlank c = false
  last : t.getLast? = some ']' ∨ t.getLast? = some ')'

namespace Text.Enclosed

variable {t u : Text}

theorem ne_nil (h : Enclosed t) : t ≠ [] := by
  rintro rfl
  obtain ⟨c, hc, _⟩ := h.head
  cases hc

theorem trimmed (h : Enclosed t) : Trimmed t := by
  obtain ⟨c, hc, hb⟩ := h.head
  constructor
  · intro d hd
    rw [hc] at hd
    obtain rfl := Option.some.inj hd
    exact hb
  · intro d hd
    rcases h.last with hl | hl <;>
    · rw [hl] at hd
      obtain rfl := Option.some.inj hd
      decide

theorem not_blank (h : Enclosed t) : ¬Blank t := by
  obtain ⟨c, hc, hb⟩ := h.head
  intro hblank
  rw [hblank c (List.mem_of_head? hc)] at hb
  cases hb

/-- Only the head of the first and the end of the last part matter. -/
theorem of_append (ht : ∃ c, t.head? = some c ∧ isBlank c = false)
    (hu : u.getLast? = some ']' ∨ u.getLast? = some ')') : Enclosed (t ++ u) where
  head := by
    obtain ⟨c, hc, hb⟩ := ht
    exact ⟨c, by rw [List.head?_append, hc]; rfl, hb⟩
  last := by
    rcases hu with hu | hu
    · exact Or.inl (by rw [List.getLast?_append, hu]; rfl)
    · exact Or.inr (by rw [List.getLast?_append, hu]; rfl)

theorem intercalate {d : Char} {ts : List Text} (hne : ts ≠ []) (h : ∀ t ∈ ts, Enclosed t) :
    Enclosed ([d].intercalate ts) := by
  induction ts with
  | nil => exact absurd rfl hne
  | cons t ts ih =>
    have ht := h t (List.mem_cons_self ..)
    cases ts with
    | nil =>
      rw [List.intercalate_singleton]
      exact ht
    | cons u ts =>
      rw [List.intercalate_cons_cons, List.append_assoc]
      have hrest := ih (by simp) fun v hv => h v (List.mem_cons_of_mem _ hv)
      apply of_append ht.head
      rcases hrest.last with hl | hl
      · exact Or.inl (by rw [List.getLast?_append, hl]; rfl)
      · exact Or.inr (by rw [List.getLast?_append, hl]; rfl)

end Text.Enclosed

/-! ### Generics and dots -/

/-- How generics are written. -/
def genericsText (generics : List Name) : Text :=
  if generics.isEmpty then [] else '[' :: ([','].intercalate generics ++ [']'])

/-- The piece of a shape that written generics become. -/
def genericsPiece (generics : List Name) : Option Text :=
  if generics.isEmpty then none else some ([','].intercalate generics)

section

variable {generics : List Name} {rest : Text}

theorem forall₂_nameText (hg : ∀ g ∈ generics, isName g = true) :
    List.Forall₂ NameText generics generics :=
  List.forall₂_same.2 fun g h => .mk (hg g h) (.refl g)

theorem genericNames_genericsPiece (hg : ∀ g ∈ generics, isName g = true) :
    genericNames (genericsPiece generics) = .ok generics := by
  unfold genericsPiece
  split
  · next h =>
    rw [List.isEmpty_iff.1 h]
    rfl
  · exact (genericNames_of_listed (listed_intercalate (forall₂_nameText hg))).2

theorem genericsText_genericsText (hg : ∀ g ∈ generics, isName g = true) :
    GenericsText (genericsText generics) generics := by
  unfold genericsText
  split
  · next h =>
    rw [List.isEmpty_iff.1 h]
    exact .absent
  · exact .written (listed_intercalate (forall₂_nameText hg)) (.refl _)

end

theorem splitVariadic_text {t : Text} (variadic : Bool)
    (h : t = [] ∨ t.getLast? = some ']' ∨ t.getLast? = some ')') :
    splitVariadic (t ++ if variadic then ['.', '.', '.'] else []) = (t, variadic) := by
  cases variadic with
  | true =>
    have hb : before? ['.', '.', '.'] (t ++ ['.', '.', '.']) = some t := before?_eq_some_iff.2 rfl
    simp [splitVariadic, hb]
  | false =>
    have hb : before? ['.', '.', '.'] t = none := by
      cases hs : before? ['.', '.', '.'] t with
      | none => rfl
      | some u =>
        rw [before?_eq_some_iff] at hs
        rw [hs] at h
        simp at h
    simp [splitVariadic, hb]

/-! ### Every canonical type -/

/-- The text of the type stands for it, and for a member if it is no proper union. -/
structure SourceType.ReadsBack (t : SourceType) : Prop where
  derives : TypeText (SourceType.text t) t
  member : t.entries.length ≤ 1 → MemberText TypeText (SourceType.text t) t
  enclosed : Enclosed (SourceType.text t)

structure SourceEntry.ReadsBack (e : SourceEntry) : Prop where
  derives : MemberText TypeText (SourceEntry.text e) (.single e)
  enclosed : Enclosed (SourceEntry.text e)

theorem SourceType.ReadsBack.reads {t : SourceType} (h : SourceType.ReadsBack t) :
    parseType (SourceType.text t) = .ok t :=
  (read_of_typeText h.derives).reads

section

variable {es : List SourceEntry} {ts : List SourceType}

/-- Settled entries unite to the type that they are the entries of. -/
theorem readsBack_union (hne : es ≠ []) (hs : Settled es)
    (h : ∀ e ∈ es, SourceEntry.ReadsBack e) : SourceType.ReadsBack (.of es) := by
  have htext : SourceType.text (.of es) = ['|'].intercalate (es.map SourceEntry.text) := by
    rw [SourceType.text, SourceEntry.texts_eq_map]
  have hne' : es.map SourceEntry.text ≠ [] := by simpa using hne
  refine ⟨?_, ?_, ?_⟩
  · have hj : Joined '|' (MemberText TypeText) (SourceType.text (.of es))
        (es.map UnionType.single) := by
      rw [htext]
      apply joined_intercalate hne'
      rw [List.forall₂_map_left_iff, List.forall₂_map_right_iff]
      exact List.forall₂_same.2 fun e he => (h e he).derives
    have ht := TypeText.members hj
    rwa [UnionType.unionAll_singles hs] at ht
  · intro hle
    obtain ⟨e, rfl⟩ : ∃ e, es = [e] := by
      rcases es with _ | ⟨e, _ | ⟨f, es⟩⟩
      · exact absurd rfl hne
      · exact ⟨e, rfl⟩
      · simp at hle
    rw [htext, List.map_singleton, List.intercalate_singleton]
    exact (h e (List.mem_singleton_self e)).derives
  · rw [htext]
    apply Enclosed.intercalate hne'
    intro u hu
    obtain ⟨e, he, rfl⟩ := List.mem_map.1 hu
    exact (h e he).enclosed

theorem forall₂_texts {R : Text → SourceType → Prop} (h : ∀ t ∈ ts, R (SourceType.text t) t) :
    List.Forall₂ R (SourceType.texts ts) ts := by
  rw [SourceType.texts_eq_map, List.forall₂_map_left_iff]
  exact List.forall₂_same.2 h

theorem readsBack_named {h : Name} (hh : isIdentifier h = true)
    (hts : ∀ t ∈ ts, SourceType.ReadsBack t) : SourceEntry.ReadsBack (.named h ts) := by
  constructor
  · rw [SourceEntry.text]
    exact .named (b := []) hh blank_nil
      (listed_intercalate (forall₂_texts fun t ht => (hts t ht).derives)) (.refl _)
  · rw [SourceEntry.text]
    apply Enclosed.of_append (head_of_isIdentifier hh)
    rw [← List.cons_append, List.getLast?_append]
    exact Or.inl rfl

/-- A result with several entries stands in parentheses. -/
theorem readsBack_result {r : SourceType} (h : SourceType.ReadsBack r) {text : Text}
    (ht : text = if 1 < r.entries.length then '(' :: (SourceType.text r ++ [')'])
      else SourceType.text r) :
    MemberText TypeText text r ∧ (text.getLast? = some ']' ∨ text.getLast? = some ')') := by
  subst ht
  split
  · refine ⟨.group h.derives (.refl _), Or.inr ?_⟩
    rw [← List.cons_append, List.getLast?_append]
    rfl
  · next hle => exact ⟨h.member (by omega), h.enclosed.last⟩

theorem pureText_written (isPure : Bool) :
    PureText (if isPure then ['p', 'u', 'r', 'e'] else []) isPure := by
  cases isPure with
  | true => exact .written (.refl _)
  | false => exact .absent blank_nil

theorem arrowText_arrow (scope : ScopeMode) : ArrowText scope.arrow scope := by
  cases scope with
  | own => exact .own (.refl _)
  | shared => exact .shared (.refl _)
  | either => exact .double (.refl _)

theorem paramsText_texts {variadic : Bool} (hv : variadic = true → ts ≠ [])
    (hts : ∀ u ∈ ts, SourceType.ReadsBack u) :
    ParamsText TypeText ([','].intercalate (SourceType.texts ts)
      ++ if variadic && !ts.isEmpty then ['.', '.', '.'] else []) variadic ts := by
  have hread : List.Forall₂ TypeText (SourceType.texts ts) ts :=
    forall₂_texts fun t ht => (hts t ht).derives
  cases variadic with
  | false =>
    rw [Bool.false_and, if_neg (by decide), List.append_nil]
    exact .fixed (listed_intercalate hread)
  | true =>
    have hne := hv rfl
    have htexts : SourceType.texts ts ≠ [] := by
      rw [SourceType.texts_eq_map]
      simpa using hne
    rw [if_pos (by simpa using hne)]
    exact .variadic (joined_intercalate htexts hread) (.refl _)

theorem readsBack_function {t : FunctionTraits} {r : SourceType}
    (hg : ∀ g ∈ t.generics, isName g = true) (hv : t.variadic = true → ts ≠ [])
    (hts : ∀ u ∈ ts, SourceType.ReadsBack u) (hr : SourceType.ReadsBack r) :
    SourceEntry.ReadsBack (.function t ts r) := by
  obtain ⟨hres, hlast⟩ := readsBack_result hr rfl
  constructor
  · have h := MemberText.function (pureText_written t.isPure) (genericsText_genericsText hg)
      (paramsText_texts hv hts) (arrowText_arrow t.scope) hres
    rw [SourceEntry.text]
    simpa only [FunctionTraits.opening, genericsText, List.append_assoc, List.cons_append,
      List.nil_append] using h
  · rw [SourceEntry.text]
    refine Enclosed.of_append ?_ hlast
    cases hp : t.isPure with
    | true => exact ⟨'p', by simp [FunctionTraits.opening, hp], by decide⟩
    | false =>
      cases hg : t.generics with
      | nil => exact ⟨'(', by simp [FunctionTraits.opening, hp, hg], by decide⟩
      | cons => exact ⟨'[', by simp [FunctionTraits.opening, hp, hg], by decide⟩

end

mutual

theorem readsBack_type : (t : SourceType) → SourceType.Canonical t → SourceType.ReadsBack t
  | .of es, h => by
    unfold SourceType.Canonical at h
    exact readsBack_union h.1 h.2.1 (readsBack_entries es h.2.2)

theorem readsBack_entry : (e : SourceEntry) → SourceEntry.Canonical e → SourceEntry.ReadsBack e
  | .named head as, h => by
    unfold SourceEntry.Canonical at h
    exact readsBack_named h.1 (readsBack_types as h.2)
  | .function t ps r, h => by
    unfold SourceEntry.Canonical at h
    exact readsBack_function h.1 h.2.1 (readsBack_types ps h.2.2.1) (readsBack_type r h.2.2.2)

theorem readsBack_entries : (es : List SourceEntry) → SourceEntry.AllCanonical es →
    ∀ e ∈ es, SourceEntry.ReadsBack e
  | [], _ => fun e he => by cases he
  | f :: fs, h => by
    unfold SourceEntry.AllCanonical at h
    intro e he
    rcases List.mem_cons.1 he with he | he
    · rw [he]
      exact readsBack_entry f h.1
    · exact readsBack_entries fs h.2 e he

theorem readsBack_types : (ts : List SourceType) → SourceType.AllCanonical ts →
    ∀ t ∈ ts, SourceType.ReadsBack t
  | [], _ => fun t ht => by cases ht
  | u :: us, h => by
    unfold SourceType.AllCanonical at h
    intro t ht
    rcases List.mem_cons.1 ht with ht | ht
    · rw [ht]
      exact readsBack_type u h.1
    · exact readsBack_types us h.2 t ht

end

/-- The canonical text of a canonical type is read as that type. -/
theorem parseType_text {t : SourceType} (h : SourceType.Canonical t) :
    parseType (SourceType.text t) = .ok t :=
  (readsBack_type t h).reads

end UnionTyping
