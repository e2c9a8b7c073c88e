/-
  UnionTyping/Proofs/Grammar/TypeGrammar.lean
  ===========================================
  **The grammar of types** — which texts stand for which types, by rules alone.

      type     := member ('|' member)*
      member   := '(' type ')' | function | named
      named    := name ['[' [type (',' type)*] ']']
      function := ['pure'] ['[' [name (',' name)*] ']']
                  '(' [type (',' type)* ['...']] ')' arrow member
      arrow    := '!=>' | '!~>' | '=>' | '~>'

  Every rule covers the blanks around its tokens, so that a text and the text
  with more blanks at its ends stand for the same type (`TypeText.spaced`).  The
  rules for members are written over a relation for the types inside them;
  `TypeText` ties the knot, and since those types have shorter texts it comes
  with an induction (`TypeText.induction`).
-/
import Mathlib.Data.List.Forall2
import UnionTyping.Proofs.Text.Trim
import UnionTyping.Text.Name
import UnionTyping.Types.Source

namespace UnionTyping

open Text

/-! ### Tokens and lists -/

/-- A token with blanks around it. -/
inductive Spaced (token : Text) : Text → Prop
  | mk {b b' : Text} : Blank b → Blank b' → Spaced token (b ++ (token ++ b'))

/-- One item or more, with the character `d` between them. -/
inductive Joined {α : Type} (d : Char) (R : Text → α → Prop) : Text → List α → Prop
  | one {t : Text} {a : α} : R t a → Joined d R t [a]
  | cons {t u : Text} {a : α} {as : List α} :
      R t a → Joined d R u as → Joined d R (t ++ d :: u) (a :: as)

/-- No item, or items between commas. -/
inductive Listed {α : Type} (R : Text → α → Prop) : Text → List α → Prop
  | none {t : Text} : Blank t → Listed R t []
  | one {t : Text} {a : α} : R t a → Listed R t [a]
  | cons {t u : Text} {a : α} {as : List α} :
      R t a → Joined ',' R u as → Listed R (t ++ ',' :: u) (a :: as)

section

variable {α : Type} {d : Char} {R : Text → α → Prop} {t : Text} {ps : List Text} {as : List α}

theorem joined_intercalate (hne : ps ≠ []) (h : List.Forall₂ R ps as) :
    Joined d R ([d].intercalate ps) as := by
  induction h with
  | nil => exact absurd rfl hne
  | @cons p a ps as hr hps ih =>
    cases ps with
    | nil =>
      rw [List.intercalate_singleton, List.forall₂_nil_left_iff.1 hps]
      exact .one hr
    | cons q ps =>
      rw [List.intercalate_cons_cons, List.append_assoc, List.singleton_append]
      exact .cons hr (ih (List.cons_ne_nil q ps))

theorem Listed.of_joined (h : Joined ',' R t as) : Listed R t as := by
  cases h with
  | one hr => exact .one hr
  | cons hr hj => exact .cons hr hj

theorem Listed.joined (h : Listed R t as) : Blank t ∧ as = [] ∨ Joined ',' R t as := by
  cases h with
  | none hb => exact Or.inl ⟨hb, rfl⟩
  | one hr => exact Or.inr (.one hr)
  | cons hr hj => exact Or.inr (.cons hr hj)

theorem listed_intercalate (h : List.Forall₂ R ps as) : Listed R ([','].intercalate ps) as := by
  by_cases hne : ps = []
  · subst hne
    rw [List.forall₂_nil_left_iff.1 h]
    exact .none blank_nil
  · exact .of_joined (joined_intercalate hne h)

end

/-! ### The rules -/

/-- The name of a generic. -/
inductive NameText : Text → Name → Prop
  | mk {n : Name} {t : Text} : isName n = true → Spaced n t → NameText t n

/-- The word before a function type, or nothing. -/
inductive PureText : Text → Bool → Prop
  | absent {t : Text} : Blank t → PureText t false
  | written {t : Text} : Spaced ['p', 'u', 'r', 'e'] t → PureText t true

/-- The generics of a function type, or nothing. -/
inductive GenericsText : Text → List Name → Prop
  | absent : GenericsText [] []
  | written {names t : Text} {ns : List Name} :
      Listed NameText names ns → Spaced ('[' :: (names ++ [']'])) t → GenericsText t ns

/-- The arrow of a function type. -/
inductive ArrowText : Text → ScopeMode → Prop
  | own {t : Text} : Spaced ['!', '=', '>'] t → ArrowText t .own
  | shared {t : Text} : Spaced ['!', '~', '>'] t → ArrowText t .shared
  | double {t : Text} : Spaced ['=', '>'] t → ArrowText t .either
  | wave {t : Text} : Spaced ['~', '>'] t → ArrowText t .either

/-- The parameters of a function type, and whether the last is variadic. -/
inductive ParamsText (R : Text → SourceType → Prop) : Text → Bool → List SourceType → Prop
  | fixed {t : Text} {ts : List SourceType} : Listed R t ts → ParamsText R t false ts
  | variadic {t dots : Text} {ts : List SourceType} :
      Joined ',' R t ts → Spaced ['.', '.', '.'] dots → ParamsText R (t ++ dots) true ts

/-- A member of a union; `R` is for the types between its brackets. -/
inductive MemberText (R : Text → SourceType → Prop) : Text → SourceType → Prop
  | group {inner t : Text} {type : SourceType} :
      R inner type → Spaced ('(' :: (inner ++ [')'])) t → MemberText R t type
  | bare {name t : Text} : isIdentifier name = true → Spaced name t → MemberText R t (.bare name)
  | named {name b args t : Text} {as : List SourceType} :
      isIdentifier name = true → Blank b → Listed R args as →
      Spaced (name ++ (b ++ '[' :: (args ++ [']']))) t → MemberText R t (.named name as)
  | function {p g ps a r : Text} {isPure variadic : Bool} {generics : List Name}
      {params : List SourceType} {scope : ScopeMode} {result : SourceType} :
      PureText p isPure → GenericsText g generics → ParamsText R ps variadic params →
      ArrowText a scope → MemberText R r result →
      MemberText R (p ++ (g ++ '(' :: (ps ++ ')' :: (a ++ r))))
        (.single (.function ⟨scope, isPure, variadic, generics⟩ params result))

/-- A type. -/
inductive TypeText : Text → SourceType → Prop
  | members {t : Text} {ts : List SourceType} :
      Joined '|' (MemberText TypeText) t ts → TypeText t (.unionAll ts)

/-! ### Induction over the length -/

section

variable {α : Type} {d : Char} {R S : Text → α → Prop} {t : Text} {as : List α}

theorem Joined.imp (h : Joined d R t as)
    (hRS : ∀ u a, u.length ≤ t.length → R u a → S u a) : Joined d S t as := by
  induction h with
  | one hr => exact .one (hRS _ _ (Nat.le_refl _) hr)
  | @cons t u a as hr _ ih =>
    have hlen : (t ++ d :: u).length = t.length + u.length + 1 := by
      simp only [List.length_append, List.length_cons]
      omega
    refine .cons (hRS _ _ (by omega) hr) (ih ?_)
    exact fun v b hv hb => hRS v b (by omega) hb

theorem Listed.imp (h : Listed R t as) (hRS : ∀ u a, u.length ≤ t.length → R u a → S u a) :
    Listed S t as := by
  rcases h.joined with ⟨hb, rfl⟩ | hj
  · exact .none hb
  · exact .of_joined (hj.imp hRS)

end

section

variable {R S : Text → SourceType → Prop} {t : Text}

theorem Spaced.length_le {u : Text} (h : Spaced u t) : u.length ≤ t.length := by
  cases h with
  | mk _ _ =>
    simp only [List.length_append]
    omega

theorem ParamsText.imp {variadic : Bool} {ts : List SourceType} (h : ParamsText R t variadic ts)
    (hRS : ∀ u a, u.length ≤ t.length → R u a → S u a) : ParamsText S t variadic ts := by
  cases h with
  | fixed hl => exact .fixed (hl.imp hRS)
  | @variadic u dots _ hj hd =>
    have hlen : u.length ≤ (u ++ dots).length := by simp
    exact .variadic (hj.imp fun v a hv ha => hRS v a (Nat.le_trans hv hlen) ha) hd

theorem MemberText.imp {type : SourceType} (h : MemberText R t type)
    (hRS : ∀ u v, u.length < t.length → R u v → S u v) : MemberText S t type := by
  induction h with
  | group hr hs =>
    have hlen := hs.length_le
    simp only [List.length_cons, List.length_append] at hlen
    exact .group (hRS _ _ (by omega) hr) hs
  | bare hn hs => exact .bare hn hs
  | named hn hb hl hs =>
    have hlen := hs.length_le
    simp only [List.length_cons, List.length_append] at hlen
    exact .named hn hb (hl.imp fun u v hu hr => hRS u v (by omega) hr) hs
  | @function p g ps a r _ _ _ _ _ _ hp hg hps ha _ ih =>
    have hlen : ps.length + r.length < (p ++ (g ++ '(' :: (ps ++ ')' :: (a ++ r)))).length := by
      simp only [List.length_cons, List.length_append]
      omega
    refine .function hp hg (hps.imp fun u v hu hr => hRS u v (by omega) hr) ha (ih ?_)
    exact fun u v hu hr => hRS u v (by omega) hr

end

/-- What holds of a type as soon as it holds of the types between the brackets of
    its members holds of every type. -/
theorem TypeText.induction {P : Text → SourceType → Prop}
    (step : ∀ t ts, Joined '|' (MemberText P) t ts → P t (.unionAll ts))
    {t : Text} {type : SourceType} (h : TypeText t type) : P t type := by
  induction hn : t.length using Nat.strong_induction_on generalizing t type with
  | _ n ih =>
    cases h with
    | members hj =>
      refine step _ _ (hj.imp fun u v hu hm => hm.imp fun w x hw hx => ?_)
      exact ih w.length (by omega) hx rfl

/-! ### Blanks at the ends -/

section

variable {b b' t : Text}

theorem Spaced.of_eq {token : Text} (he : t = b ++ (token ++ b')) (hb : Blank b)
    (hb' : Blank b') : Spaced token t := by
  rw [he]
  exact .mk hb hb'

theorem Spaced.refl (t : Text) : Spaced t t := .of_eq (by simp) blank_nil blank_nil

theorem spaced_trimStart (t : Text) : Spaced (trimStart t) t := by
  obtain ⟨l, he, hl⟩ := exists_eq_append_trimStart t
  exact .of_eq (by rwa [List.append_nil]) hl blank_nil

theorem spaced_trimEnd (t : Text) : Spaced (trimEnd t) t := by
  obtain ⟨r, he, hr⟩ := exists_eq_trimEnd_append t
  exact .of_eq (by rwa [List.nil_append]) blank_nil hr

theorem spaced_trim (t : Text) : Spaced (trim t) t := by
  obtain ⟨l, r, he, hl, hr⟩ := exists_eq_append_trim t
  exact .of_eq he hl hr

theorem Spaced.pad {token : Text} (h : Spaced token t) (hb : Blank b) (hb' : Blank b') :
    Spaced token (b ++ (t ++ b')) := by
  cases h with
  | @mk l r hl hr => exact .of_eq (by simp only [List.append_assoc]) (hb.append hl) (hr.append hb')

theorem PureText.pad {isPure : Bool} (h : PureText t isPure) (hb : Blank b) :
    PureText (b ++ t) isPure := by
  cases h with
  | absent ht => exact .absent (hb.append ht)
  | written hs =>
    have h := hs.pad hb blank_nil
    rw [List.append_nil] at h
    exact .written h

theorem MemberText.pad {R : Text → SourceType → Prop} {type : SourceType}
    (h : MemberText R t type) (hb : Blank b) (hb' : Blank b') :
    MemberText R (b ++ (t ++ b')) type := by
  induction h generalizing b with
  | group hr hs => exact .group hr (hs.pad hb hb')
  | bare hn hs => exact .bare hn (hs.pad hb hb')
  | named hn hbl hl hs => exact .named hn hbl hl (hs.pad hb hb')
  | function hp hg hps ha _ ih =>
    have h := MemberText.function (hp.pad hb) hg hps ha (ih blank_nil)
    simpa only [List.append_assoc, List.cons_append, List.nil_append] using h

theorem Joined.pad {α : Type} {d : Char} {R : Text → α → Prop} {as : List α}
    (hR : ∀ {t a b b'}, R t a → Blank b → Blank b' → R (b ++ (t ++ b')) a)
    (h : Joined d R t as) (hb : Blank b) (hb' : Blank b') : Joined d R (b ++ (t ++ b')) as := by
  induction h generalizing b with
  | one hr => exact .one (hR hr hb hb')
  | cons hr _ ih =>
    have h := Joined.cons (hR hr hb blank_nil) (ih blank_nil)
    simpa only [List.append_assoc, List.cons_append, List.nil_append, List.append_nil] using h

theorem TypeText.spaced {u : Text} {type : SourceType} (h : TypeText u type) (hs : Spaced u t) :
    TypeText t type := by
  cases hs with
  | mk hb hb' =>
    cases h with
    | members hj => exact .members (hj.pad (fun hr hl hr' => hr.pad hl hr') hb hb')

end

end UnionTyping
