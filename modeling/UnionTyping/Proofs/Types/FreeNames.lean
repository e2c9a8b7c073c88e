/-
  UnionTyping/Proofs/Types/FreeNames.lean
  =======================================
  **Free names** — a name is free in a type if it stands there outside the functions
  that declare it as a generic.  A substitution replaces free names only.  So the
  free names of the result are those that it leaves and those that the images bring,
  less the ones that are captured: an image is put in as it is, also inside a function
  that declares a name of it (`free_apply`, `apply_captures`).

  That a union makes nothing free and takes nothing away is the converse of
  `EachIn.union`, and a substitution is a union of what its entries yield
  (`eachIn_apply_iff`).  Both need that nothing is universal, since the universal type
  absorbs the names beside it.
-/
import UnionTyping.Proofs.Types.Resolution
import UnionTyping.Proofs.Types.Scopes
import UnionTyping.Proofs.Types.SubstitutedUnions

namespace UnionTyping

open UnionType

namespace Substitution

variable {s : Substitution} {p : List Name → SourceEntry → Prop}

/-! ### Scopes -/

theorem without_nil (s : Substitution) : s.without [] = s := by
  obtain ⟨ps⟩ := s
  simp [without, Table.filterKeys]

theorem without_append (s : Substitution) (names names' : List Name) :
    s.without (names ++ names') = (s.without names).without names' := by
  simp [without, Table.filterKeys, List.filter_filter, Bool.and_comm]

/-- `p` holds of what the substitution makes of an entry that stands in `scope`: of the
    image of a name, or else of the entry itself, which keeps its frame. -/
def Yields (s : Substitution) (p : List Name → SourceEntry → Prop) (scope : List Name) :
    SourceEntry → Prop
  | .named n [] => ((s.without scope).apply (.bare n)).EachIn fun inner e => p (scope ++ inner) e
  | e => p scope e

theorem yields_without {names scope : List Name} {e : SourceEntry} :
    (s.without names).Yields (fun scope d => p (names ++ scope) d) scope e
      ↔ s.Yields p (names ++ scope) e := by
  rcases e with ⟨n, _ | ⟨a, as⟩⟩ | ⟨t, ps, r⟩
  · simp only [Yields, ← without_append, List.append_assoc]
  · exact Iff.rfl
  · exact Iff.rfl

/-- An entry becomes what it yields, with its types replaced inside. -/
theorem eachIn_apply_single_iff (hp : Framed p) {e : SourceEntry} :
    (s.apply (.single e)).EachIn p ↔ s.Yields p [] e
      ∧ ∀ a ∈ e.parts, ((s.without e.generics).apply a).EachIn
          fun scope d => p (e.generics ++ scope) d := by
  have hframe {d e : SourceEntry} (h : d.frame = e.frame) : p [] d ↔ p [] e :=
    ⟨fun hd => hp.congr hd h.symm, fun he => hp.congr he h⟩
  rcases e with ⟨n, _ | ⟨a, as⟩⟩ | ⟨t, ps, r⟩
  · simp only [Yields, without_nil, List.nil_append]
    exact (and_iff_left (List.forall_mem_nil _)).symm
  · rw [← named, apply_named, named, eachIn_single_iff]
    refine and_congr (hframe (by simp [Entry.frame])) ?_
    simp only [Entry.parts, Entry.generics, without_nil, List.forall_mem_map]
  · rw [apply_function, eachIn_single_iff]
    refine and_congr (hframe rfl) ?_
    simp only [Entry.parts, Entry.generics, List.forall_mem_cons, List.forall_mem_map]

/-- The entries of a type after a substitution are what its entries yield. -/
theorem eachIn_apply_iff (hp : Framed p) (hnot : ∀ scope e, p scope e → e.isAny = false)
    (hs : ∀ n u, s.find? n = some u → u.Normal) {t : SourceType} (ht : t.Normal) :
    (s.apply t).EachIn p ↔ t.EachIn (s.Yields p) := by
  induction ht generalizing s p with
  | @of es hes hparts ih =>
    have hnormal : ∀ u ∈ es.map fun e => s.apply (.single e), u.Normal :=
      List.forall_mem_map.2 fun e he =>
        each_apply kept_settled hs (.single (settled_singleton e) (hparts e he))
    rw [apply_of_settled s hes, eachIn_unionAll_iff hp hnot hnormal, List.forall_mem_map,
      eachIn_of_iff]
    refine forall₂_congr fun e he => ?_
    rw [eachIn_apply_single_iff hp]
    refine and_congr_right fun _ => forall₂_congr fun a ha => ?_
    rw [ih e he a ha (hp.enter e.generics) (fun scope => hnot _) (forall_without hs _)]
    simp only [EachIn, yields_without]

end Substitution

/-! ### Free names -/

namespace SourceType

/-- The name stands inside functions that declare `scope`, which it is not among. -/
def FreeIn (scope : List Name) (n : Name) (t : SourceType) : Prop :=
  t.Holds scope (.named n []) ∧ n ∉ scope

def Free (n : Name) (t : SourceType) : Prop := ∃ scope, FreeIn scope n t

/-- The universal name is nowhere in the type. -/
def Plain (t : SourceType) : Prop := t.EachIn fun _ e => e.isAny = false

/-- An entry that is neither the universal name nor `n` outside functions that declare it. -/
def Passes (n : Name) (scope : List Name) (e : SourceEntry) : Prop :=
  e.isAny = false ∧ (e = .named n [] → n ∈ scope)

theorem framed_passes (n : Name) : Framed (Passes n) where
  universal := by
    intro scope e h hany
    rw [h.1] at hany
    cases hany
  congr := by
    intro scope d e h hframe
    refine ⟨by rw [Entry.isAny_of_frame hframe, h.1], ?_⟩
    rintro rfl
    rcases e with ⟨m, _ | ⟨a, as⟩⟩ | ⟨t, ps, r⟩
    · obtain ⟨rfl, _⟩ := Prod.mk.inj (Sum.inl.inj hframe)
      exact h.2 rfl
    · simp [Entry.frame] at hframe
    · cases hframe

variable {n x : Name} {t : SourceType} {scope : List Name}

theorem plain_of_not_mentions (h : ¬Mentions TypeName.any t) : Plain t :=
  (not_has_iff_eachIn.1 h).imp fun _ _ hne => Bool.eq_false_iff.2 fun hany => hne (isAny_source hany)

/-- The names of a scope are declared in the type. -/
theorem declares_of_mem_scope {e : SourceEntry} (h : t.Holds scope e) (hn : n ∈ scope) :
    Declares n t := by
  induction h with
  | here => cases hn
  | inside hd ha _ ih =>
    rcases List.mem_append.1 hn with hn | hn
    · exact .here hd hn
    · exact .inside hd ha (ih hn)

theorem free_of_iff {es : List SourceEntry} : Free n (.of es)
    ↔ ∃ e ∈ es, e = .named n [] ∨ n ∉ e.generics ∧ ∃ a ∈ e.parts, Free n a := by
  constructor
  · rintro ⟨scope, h, hn⟩
    cases h with
    | here he => exact ⟨_, he, Or.inl rfl⟩
    | inside hd ha hin =>
      rw [List.mem_append, not_or] at hn
      exact ⟨_, hd, Or.inr ⟨hn.1, _, ha, _, hin, hn.2⟩⟩
  · rintro ⟨e, he, rfl | ⟨hn, a, ha, scope, hin, hscope⟩⟩
    · exact ⟨[], .here he, List.not_mem_nil⟩
    · refine ⟨e.generics ++ scope, .inside he ha hin, ?_⟩
      rw [List.mem_append, not_or]
      exact ⟨hn, hscope⟩

theorem free_single_iff {e : SourceEntry} : Free n (.single e)
    ↔ e = .named n [] ∨ n ∉ e.generics ∧ ∃ a ∈ e.parts, Free n a := by
  rw [UnionType.single, free_of_iff]
  simp only [List.mem_singleton, exists_eq_left]

theorem free_bare_iff : Free n (.bare x) ↔ n = x := by
  rw [bare, named, free_single_iff]
  simp [Entry.parts, eq_comm]

theorem free_iff_not_passes (ht : Plain t) :
    n ∉ scope ∧ Free n t ↔ ¬t.EachIn fun inner e => Passes n (scope ++ inner) e := by
  constructor
  · rintro ⟨hscope, inner, hn, hinner⟩ h
    rcases List.mem_append.1 ((h inner _ hn).2 rfl) with hmem | hmem
    · exact hscope hmem
    · exact hinner hmem
  · intro h
    simp only [EachIn, not_forall] at h
    obtain ⟨inner, e, he, h⟩ := h
    have hn : e = .named n [] ∧ n ∉ scope ++ inner := by
      rw [← Classical.not_imp]
      exact fun hn => h ⟨ht inner e he, hn⟩
    obtain ⟨rfl, hn⟩ := hn
    rw [List.mem_append, not_or] at hn
    exact ⟨hn.1, inner, he, hn.2⟩

end SourceType

namespace Substitution

open SourceType

variable {s : Substitution} {n x : Name} {t : SourceType} {scope : List Name}

theorem plain_apply_bare (hs : ∀ n u, s.find? n = some u → Plain u)
    (hx : (Entry.named x [] : SourceEntry).isAny = false) :
    Plain ((s.without scope).apply (.bare x)) := by
  rw [apply_bare]
  cases hn : (s.without scope).find? x with
  | none => exact eachIn_single_iff.2 ⟨hx, List.forall_mem_nil _⟩
  | some u => exact forall_without hs scope x u hn

theorem plain_apply (hnormal : ∀ n u, s.find? n = some u → u.Normal)
    (hs : ∀ n u, s.find? n = some u → Plain u) (ht : t.Normal) (h : Plain t) :
    Plain (s.apply t) := by
  refine (eachIn_apply_iff framed_not_isAny (fun _ _ => id) hnormal ht).2 fun scope e he => ?_
  rcases e with ⟨x, _ | ⟨a, as⟩⟩ | ⟨t, ps, r⟩
  · exact plain_apply_bare hs (h scope _ he)
  · rfl
  · rfl

/-- What is free in the result is free in what some name becomes. -/
theorem free_apply_iff_exists (hnormal : ∀ n u, s.find? n = some u → u.Normal)
    (hs : ∀ n u, s.find? n = some u → Plain u) (ht : t.Normal) (h : Plain t) :
    Free n (s.apply t) ↔ ∃ scope x, t.Holds scope (.named x [])
      ∧ n ∉ scope ∧ Free n ((s.without scope).apply (.bare x)) := by
  -- that a name is nowhere free is what passes through unions, not that it is free somewhere
  have hfree : Free n (s.apply t) ↔ ¬(s.apply t).EachIn (Passes n) :=
    (and_iff_right List.not_mem_nil).symm.trans (free_iff_not_passes (plain_apply hnormal hs ht h))
  have happly := eachIn_apply_iff (framed_passes n) (fun _ _ h => h.1) hnormal ht
  refine hfree.trans ((not_congr happly).trans ?_)
  constructor
  · intro hyields
    simp only [EachIn, not_forall] at hyields
    obtain ⟨scope, e, he, hyields⟩ := hyields
    rcases e with ⟨x, _ | ⟨a, as⟩⟩ | ⟨t, ps, r⟩
    · refine ⟨scope, x, he, ?_⟩
      exact (free_iff_not_passes (plain_apply_bare hs (h scope _ he))).2 hyields
    · exact absurd ⟨rfl, fun hn => by cases hn⟩ hyields
    · exact absurd ⟨rfl, fun hn => by cases hn⟩ hyields
  · rintro ⟨scope, x, hx, hfree⟩ hyields
    exact (free_iff_not_passes (plain_apply_bare hs (h scope _ hx))).1 hfree (hyields scope _ hx)

/-- A name that a function around it declares is not replaced. -/
theorem free_apply_bare_iff : n ∉ scope ∧ Free n ((s.without scope).apply (.bare x))
    ↔ x ∉ scope ∧ n ∉ scope
      ∧ (n = x ∧ s.find? x = none ∨ ∃ u, s.find? x = some u ∧ Free n u) := by
  rw [apply_bare, find?_without]
  by_cases hx : x ∈ scope
  · rw [if_pos hx, Option.getD_none, free_bare_iff]
    constructor
    · rintro ⟨hn, rfl⟩
      exact absurd hx hn
    · exact fun h => absurd hx h.1
  · rw [if_neg hx, and_iff_right hx]
    refine and_congr_right fun _ => ?_
    cases s.find? x with
    | none => simp [free_bare_iff]
    | some u => simp

/-- The free names after a substitution are those that it does not replace and those
    of the images, except where a function around an image declares them: there they
    are captured.  If no image is put where a free name of it is declared, they are the
    free names that are not replaced and those of the images of the others.  The types
    are normalized, and `any` is not in them. -/
theorem free_apply (ht : t.Normalized) (hs : ∀ n u, s.find? n = some u → u.Normalized)
    (hany : ¬Mentions TypeName.any t)
    (hanys : ∀ n u, s.find? n = some u → ¬Mentions TypeName.any u) :
    (∀ n, Free n (s.apply t) ↔ Free n t ∧ s.find? n = none
        ∨ ∃ scope x u, FreeIn scope x t ∧ n ∉ scope ∧ s.find? x = some u ∧ Free n u)
      ∧ ((∀ scope x u, FreeIn scope x t → s.find? x = some u → ∀ n ∈ scope, ¬Free n u) →
        ∀ n, Free n (s.apply t) ↔ Free n t ∧ s.find? n = none
          ∨ ∃ x u, Free x t ∧ s.find? x = some u ∧ Free n u) := by
  have hfree (n : Name) : Free n (s.apply t) ↔ Free n t ∧ s.find? n = none
      ∨ ∃ scope x u, FreeIn scope x t ∧ n ∉ scope ∧ s.find? x = some u ∧ Free n u := by
    rw [free_apply_iff_exists (fun n u hn => normalized_iff.1 (hs n u hn))
      (fun n u hn => plain_of_not_mentions (hanys n u hn)) (normalized_iff.1 ht)
      (plain_of_not_mentions hany)]
    simp only [free_apply_bare_iff]
    constructor
    · rintro ⟨scope, x, hx, hxscope, hn, ⟨rfl, hnone⟩ | ⟨u, hu, hfree⟩⟩
      · exact Or.inl ⟨⟨scope, hx, hxscope⟩, hnone⟩
      · exact Or.inr ⟨scope, x, u, ⟨hx, hxscope⟩, hn, hu, hfree⟩
    · rintro (⟨⟨scope, hn, hscope⟩, hnone⟩ | ⟨scope, x, u, ⟨hx, hxscope⟩, hn, hu, hfree⟩)
      · exact ⟨scope, n, hn, hscope, hscope, Or.inl ⟨rfl, hnone⟩⟩
      · exact ⟨scope, x, hx, hxscope, hn, Or.inr ⟨u, hu, hfree⟩⟩
  refine ⟨hfree, fun hfresh n => (hfree n).trans (or_congr_right ?_)⟩
  constructor
  · rintro ⟨scope, x, u, hx, _, hu, hn⟩
    exact ⟨x, u, ⟨scope, hx⟩, hu, hn⟩
  · rintro ⟨x, u, ⟨scope, hx⟩, hu, hn⟩
    exact ⟨scope, x, u, hx, fun hmem => hfresh scope x u hx hu n hmem hn, hu, hn⟩

/-- The image of `T` brings `U` into a function that declares another name. -/
theorem free_apply_list :
    let s := ofBindings [['T']] [SourceType.list (.bare ['U'])]
    let t : SourceType :=
      .single (.function ⟨.either, false, false, [['V']]⟩ [.bare ['T']] (.bare ['V']))
    ∀ n, Free n (s.apply t) ↔ n = ['U'] := by
  intro s t
  have hs {n : Name} {u : SourceType} (h : s.find? n = some u) :
      u = SourceType.list (.bare ['U']) :=
    Table.forall_ofList (P := (· = SourceType.list (.bare ['U'])))
      (List.forall_mem_singleton.2 rfl) n u h
  have himage (n : Name) : Free n (SourceType.list (.bare ['U'])) ↔ n = ['U'] := by
    simp [SourceType.list, named, free_single_iff, free_bare_iff, Entry.parts, Entry.generics]
  have htype (n : Name) : Free n t ↔ n = ['T'] := by
    have hn : Free n t ↔ n ≠ ['V'] ∧ (n = ['V'] ∨ n = ['T']) := by
      simp [t, free_single_iff, free_bare_iff, Entry.parts, Entry.generics]
    grind
  have hU : ¬Declares ['U'] t := by
    simp [t, Declares, bare, named, has_single_iff, Entry.parts, Entry.generics]
  have hnormal (n : Name) : (UnionType.bare n : SourceType).Normal := each_bare lasting_settled n
  obtain ⟨_, happly⟩ := free_apply (s := s) (t := t)
    (normalized_iff.2 (.single (settled_singleton _)
      (List.forall_mem_cons.2 ⟨hnormal _, List.forall_mem_singleton.2 (hnormal _)⟩)))
    (fun n u h => by
      rw [hs h]
      exact normalized_iff.2 (each_named lasting_settled (hnormal _)))
    (by simp [t, Mentions, bare, named, has_single_iff, Entry.parts, TypeName.any])
    (fun n u h => by
      rw [hs h]
      simp [Mentions, SourceType.list, bare, named, has_single_iff, Entry.parts, TypeName.any])
  intro n
  rw [happly ?_, htype]
  · constructor
    · rintro (⟨rfl, hnone⟩ | ⟨x, u, _, hu, hn⟩)
      · cases hnone
      · rwa [hs hu, himage] at hn
    · rintro rfl
      exact Or.inr ⟨['T'], _, (htype _).2 rfl, rfl, (himage _).2 rfl⟩
  · intro scope x u hx hu m hm
    rw [hs hu, himage]
    rintro rfl
    exact hU (declares_of_mem_scope hx.1 hm)

/-- A function that declares `U` captures the image of `T`. -/
theorem apply_captures :
    let s := ofBindings [['T']] [.bare ['U']]
    let t : SourceType :=
      .single (.function ⟨.either, false, false, [['U']]⟩ [.bare ['T']] (.bare ['T']))
    (t.Normalized ∧ (∀ n u, s.find? n = some u → u.Normalized)
        ∧ ¬Mentions TypeName.any t ∧ ∀ n u, s.find? n = some u → ¬Mentions TypeName.any u)
      ∧ SourceType.text (s.apply t) = "[U](U[])=>U[]".toList
      ∧ ¬∀ n, Free n (s.apply t) ↔ Free n t ∧ s.find? n = none
        ∨ ∃ x u, Free x t ∧ s.find? x = some u ∧ Free n u := by
  intro s t
  have hs {n : Name} {u : SourceType} (h : s.find? n = some u) : u = .bare ['U'] :=
    Table.forall_ofList (P := (· = .bare ['U'])) (List.forall_mem_singleton.2 rfl) n u h
  have hnormal (n : Name) : (UnionType.bare n : SourceType).Normal := each_bare lasting_settled n
  have happly : s.apply t = .single (.function ⟨.either, false, false, [['U']]⟩ [.bare ['U']]
      (.bare ['U'])) := by
    rw [apply_function, List.map_singleton, apply_bare]
    rfl
  refine ⟨⟨?_, ?_, ?_, ?_⟩, by decide +kernel, fun h => ?_⟩
  · exact normalized_iff.2 (.single (settled_singleton _)
      (List.forall_mem_cons.2 ⟨hnormal _, List.forall_mem_singleton.2 (hnormal _)⟩))
  · intro n u hu
    rw [hs hu]
    exact normalized_iff.2 (hnormal _)
  · simp [t, Mentions, bare, named, has_single_iff, Entry.parts, TypeName.any]
  · intro n u hu
    rw [hs hu]
    simp [Mentions, bare, named, has_single_iff, Entry.parts, TypeName.any]
  · have hfree : ¬Free ['U'] (s.apply t) := by
      simp [happly, free_single_iff, free_bare_iff, Entry.parts, Entry.generics]
    refine hfree ((h ['U']).2 (Or.inr ⟨['T'], .bare ['U'], ?_, rfl, free_bare_iff.2 rfl⟩))
    simp [t, free_single_iff, free_bare_iff, Entry.parts, Entry.generics]

end Substitution

end UnionTyping
