/-
  UnionTyping/Proofs/Grammar/Signs.lean
  =====================================
  **Equals signs that do not assign** — a type may have equals signs at its top
  level, but each of them is the stem of an arrow (`Unassigned`).  So the first
  sign that assigns in a declaration is the one behind the written type.
-/
import UnionTyping.Proofs.Grammar.Operand

namespace UnionTyping

namespace Text

/-- Every equals sign at the top level is the stem of an arrow. -/
def Unassigned (t : Text) : Prop :=
  ∀ l r, t = l ++ '=' :: r → (scan .start l).atTop = true → r.head? = some '>'

theorem Avoids.unassigned {t : Text} (h : Avoids (· == '=') t) : Unassigned t := by
  intro l r he htop
  have hc := h l '=' r he htop
  cases hc

theorem unassigned_of_not_mem {t : Text} (h : '=' ∉ t) : Unassigned t := by
  rintro l r rfl
  exact absurd (by simp) h

theorem Unassigned.append {t u : Text} (ht : Balanced t) (h₁ : Unassigned t) (h₂ : Unassigned u)
    (hf : (scan .start t).Fits u) : Unassigned (t ++ u) := by
  intro l r he htop
  rcases List.append_eq_append_iff.1 he with ⟨y, rfl, hy⟩ | ⟨y, hy, hc⟩
  · by_cases hne : y = []
    · subst hne
      exact h₂ [] r hy (by decide)
    · have hfy : (scan .start t).Fits y := by
        intro d hd
        exact hf d (by rw [hy, List.head?_append, hd]; rfl)
      rw [ht.scan_after hne hfy] at htop
      exact h₂ y r hy htop
  · cases y with
    | nil => exact h₂ [] r hc.symm (by decide)
    | cons d y =>
      obtain ⟨rfl, rfl⟩ := List.cons.inj hc
      have hhead : (y ++ u).head? = some '>' := by
        rw [List.head?_append, h₁ l y hy htop]
        rfl
      exact hhead

theorem unassigned_arrow : Unassigned ['=', '>'] := by
  intro l r he _
  cases l with
  | nil =>
    obtain ⟨_, rfl⟩ := List.cons.inj he
    rfl
  | cons c l =>
    exfalso
    have hm : '=' ∈ ['>'] := by
      rw [(List.cons.inj he).2]
      simp
    exact absurd hm (by decide)

end Text

open Text

theorem unassigned_of_mem_typeArrows {arrow : Text} {mode : ScopeMode}
    (h : (arrow, mode) ∈ typeArrows) : Unassigned arrow := by
  have hmark : Sealed ['!'] := sealed_of_plain (by decide)
  have hown : Sealed ['=', '>'] := sealed_arrow (Or.inr rfl)
  simp only [typeArrows, List.mem_cons, Prod.mk.injEq, List.not_mem_nil, or_false] at h
  rcases h with ⟨rfl, _⟩ | ⟨rfl, _⟩ | ⟨rfl, _⟩ | ⟨rfl, _⟩
  · exact Unassigned.append hmark.toBalanced (unassigned_of_not_mem (by decide)) unassigned_arrow
      (hown.fits _)
  · exact unassigned_of_not_mem (by decide)
  · exact unassigned_arrow
  · exact unassigned_of_not_mem (by decide)

theorem unassigned_intercalate_bar {ts : List Text} (h : ∀ t ∈ ts, Sealed t ∧ Unassigned t) :
    Unassigned (['|'].intercalate ts) := by
  have hbar : Sealed ['|'] := sealed_of_plain (by decide)
  induction ts with
  | nil => exact unassigned_of_not_mem (by simp)
  | cons t ts ih =>
    obtain ⟨ht, hu⟩ := h t (List.mem_cons_self ..)
    cases ts with
    | nil =>
      rw [List.intercalate_singleton]
      exact hu
    | cons u ts =>
      have hrest : ∀ v ∈ u :: ts, Sealed v ∧ Unassigned v :=
        fun v hv => h v (List.mem_cons_of_mem _ hv)
      rw [List.intercalate_cons_cons, List.append_assoc]
      have hsealed := sealed_intercalate_bar fun v hv => (hrest v hv).1
      refine Unassigned.append ht.toBalanced hu ?_ ((hbar.append hsealed).fits _)
      exact Unassigned.append hbar.toBalanced (unassigned_of_not_mem (by decide)) (ih hrest)
        (hsealed.fits _)

theorem unassigned_of_trim {t : Text} (hs : Sealed (trim t)) (h : Unassigned (trim t)) :
    Unassigned t := by
  obtain ⟨l, r, he, hl, hr⟩ := exists_eq_append_trim t
  have hblank {b : Text} (hb : Blank b) : Unassigned b :=
    unassigned_of_not_mem fun hm => absurd (hb _ hm) (by decide)
  rw [he]
  refine Unassigned.append (sealed_of_blank hl).toBalanced (hblank hl) ?_
    ((hs.append (sealed_of_blank hr)).fits _)
  exact Unassigned.append hs.toBalanced h (hblank hr) ((sealed_of_blank hr).fits _)

theorem unassigned_of_functionShape? {t : Text} {shape : FunctionShape} {names : List Name}
    (h : functionShape? t = some shape) (hg : genericNames shape.generics = .ok names)
    (hp : Balanced shape.params) (hr : Sealed shape.result) (hu : Unassigned shape.result) :
    Unassigned t := by
  simp only [functionShape?, Option.bind_eq_bind, Option.bind_eq_some_iff, Prod.exists] at h
  obtain ⟨generics, rest, hs, params, tail, hgroup, mode, result, ha, h⟩ := h
  obtain rfl := Option.some.inj h
  obtain ⟨l₁, h₁, hl₁, hn₁⟩ := exists_eq_append_splitPure t
  obtain ⟨l₂, h₂, hl₂, hn₂⟩ := sealed_of_splitGenerics? hs hg
  obtain ⟨h₃, _⟩ := eq_of_group? hgroup
  obtain ⟨l₄, h₄, hb₄⟩ := exists_eq_append_trimStart tail
  obtain ⟨arrow, hm, h₅⟩ := eq_of_arrow? ha
  have hl₄ := sealed_of_blank hb₄
  have hn₄ : '=' ∉ l₄ := fun hm => absurd (hb₄ _ hm) (by decide)
  have harrow := sealed_of_mem_typeArrows hm
  have hgroup : Sealed ('(' :: (params ++ [')'])) := sealed_group (b := .round) hp (by decide)
  have ht : t = l₁ ++ (l₂ ++ (('(' :: (params ++ [')'])) ++ (l₄ ++ (arrow ++ result)))) := by
    rw [← h₅, ← h₄, h₁, h₂, h₃]
    simp [Bracket.opening, Bracket.closing]
  have hs₅ := harrow.append hr
  have hs₄ := hl₄.append hs₅
  have hs₃ := hgroup.append hs₄
  rw [ht]
  refine Unassigned.append hl₁.toBalanced (unassigned_of_not_mem hn₁) ?_ ((hl₂.append hs₃).fits _)
  refine Unassigned.append hl₂.toBalanced hn₂.unassigned ?_ (hs₃.fits _)
  refine Unassigned.append hgroup.toBalanced
    (avoids_group (b := .round) hp (by decide)).unassigned ?_ (hs₄.fits _)
  refine Unassigned.append hl₄.toBalanced (unassigned_of_not_mem hn₄) ?_ (hs₅.fits _)
  exact Unassigned.append harrow.toBalanced (unassigned_of_mem_typeArrows hm) hu (hr.fits _)

/-- No equals sign in a type assigns. -/
theorem unassigned_of_parseType {t : Text} {type : SourceType} (h : parseType t = .ok type) :
    Unassigned t := by
  refine parseType_induction (P := fun t _ => Unassigned t) ?_ h
  intro t type hf
  refine unassigned_of_trim (sealed_of_typeForm hf fun _ _ hu => sealed_of_parseType hu.1) ?_
  have hmem {us : List Text} {vs : List SourceType}
      (h : List.Forall₂ (fun u v => parseType u = .ok v ∧ Unassigned u) us vs) :
      ∀ u ∈ us, Sealed u ∧ Unassigned u := by
    intro u hu
    obtain ⟨_, _, hr, hn⟩ := exists_of_forall₂_left h u hu
    exact ⟨sealed_of_parseType hr, hn⟩
  have hname {name : Name} (hn : isIdentifier name = true) : '=' ∉ name := fun hm =>
    absurd (isNameChar_of_mem_identifier hn _ hm) (by decide)
  cases hf with
  | union _ hts =>
    rw [← intercalate_splitTop '|' (trim t)]
    exact unassigned_intercalate_bar (hmem hts)
  | group hu hr =>
    rw [eq_of_unwrap? hu]
    exact (avoids_group (sealed_of_parseType hr.1).toBalanced (by decide)).unassigned
  | function hs hg hv _ hps hr =>
    refine unassigned_of_functionShape? hs hg (balanced_of_trim ?_) (sealed_of_parseType hr.1) hr.2
    rw [eq_of_splitVariadic hv]
    exact (balanced_of_commaItems fun u hu => (hmem hps u hu).1).append (sealed_dots _).toBalanced
      ((sealed_dots _).fits _)
  | bare hn => exact unassigned_of_not_mem (hname hn)
  | @named name blank inner _ ht hn hb has =>
    have hinner : Balanced inner := balanced_of_commaItems fun u hu => (hmem has u hu).1
    have hgroup : Sealed ('[' :: (inner ++ [']'])) := sealed_group (b := .square) hinner (by decide)
    rw [ht]
    refine Unassigned.append (sealed_of_isIdentifier hn).toBalanced
      (unassigned_of_not_mem (hname hn)) ?_ (((sealed_of_blank hb).append hgroup).fits _)
    exact Unassigned.append (sealed_of_blank hb).toBalanced
      (unassigned_of_not_mem fun hm => absurd (hb _ hm) (by decide))
      (avoids_group (b := .square) hinner (by decide)).unassigned (hgroup.fits _)

/-! ### The sign that assigns -/

theorem cutAssignment_sign {t u : Text} (ht : Balanced t) (hn : Unassigned t) :
    cutAssignment (t ++ ' ' :: '=' :: ' ' :: u) = some (t ++ [' '], ' ' :: u) := by
  have hsplit : t ++ ' ' :: '=' :: ' ' :: u = (t ++ [' ']) ++ '=' :: ' ' :: u := by simp
  rw [hsplit]
  apply cutFirst_append_cons
  · apply isAssignment_sign ht
    intro c hc
    obtain rfl := Option.some.inj hc
    decide
  · intro l c r he
    by_cases hc : c = '='
    · subst hc
      cases htop : (scan .start l).atTop with
      | false => simp [isAssignment, htop]
      | true =>
        -- the sign stands in `t`, before a tip
        obtain ⟨r', rfl, ht'⟩ : ∃ r', r = r' ++ [' '] ∧ t = l ++ '=' :: r' := by
          rcases List.append_eq_append_iff.1 he with ⟨y, rfl, hy⟩ | ⟨y, hy, hr⟩
          · cases y with
            | nil => cases hy
            | cons d y => simp at hy
          · cases y with
            | nil => cases hr
            | cons d y =>
              obtain ⟨rfl, rfl⟩ := List.cons.inj hr
              exact ⟨y, rfl, hy⟩
        have hhead := hn l r' ht' htop
        cases r' with
        | nil => cases hhead
        | cons d r' =>
          obtain rfl := Option.some.inj hhead
          simp [isAssignment]
    · simp [isAssignment, hc]

end UnionTyping
