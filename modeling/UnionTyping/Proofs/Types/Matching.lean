/-
  UnionTyping/Proofs/Types/Matching.lean
  ======================================
  **Matching types** — normal types that are the same.  Their entries are partners
  of each other, one by one but in any order, and partners are alike in all that
  is asked about an entry: its name, whether it is universal, what stands inside.
  So whatever is asked about the entries of a type without regard to their order
  has the same answer for both, and unions over the entries match again
  (`matches_unionAll`).

  Substituting matching types gives matching types (`Substitution.matches_apply`),
  and what solves the generics of a call for one list of argument types solves
  them for matching ones, with matching solutions (`Generics.corresponds_assign`).
-/
import UnionTyping.Proofs.Types.Invariants
import UnionTyping.Proofs.Types.Semilattice
import UnionTyping.Proofs.Types.Tables

namespace UnionTyping

open UnionType

section

variable {ν : Type} [DecidableEq ν] [Vocabulary ν]

/-! ### Types and their entries -/

/-- Normal types that are the same. -/
structure UnionType.Matches (a b : UnionType ν) : Prop where
  left : a.Normal
  right : b.Normal
  same : a.same b = true

/-- Entries that agree but for the types inside, which match place by place. -/
inductive Entry.Matches : Entry ν → Entry ν → Prop
  | named (h : ν) {as bs : List (UnionType ν)} :
      List.Forall₂ UnionType.Matches as bs → Matches (.named h as) (.named h bs)
  | function (t : FunctionTraits) {ps qs : List (UnionType ν)} {r s : UnionType ν} :
      List.Forall₂ UnionType.Matches ps qs → r.Matches s →
      Matches (.function t ps r) (.function t qs s)

namespace UnionType

variable {a b : UnionType ν}

theorem matches_refl (h : a.Normal) : a.Matches a := ⟨h, h, same_refl a⟩

theorem Matches.beq (h : a.Matches b) : (a == b) = true := h.same

theorem Matches.symm (h : a.Matches b) : b.Matches a := ⟨h.right, h.left, same_symm h.left h.same⟩

/-- Whether two types are equal can be told from types that match them. -/
theorem Matches.beq_congr {a' b' : UnionType ν} (ha : a.Matches a') (hb : b.Matches b') :
    (a == b) = (a' == b') := by
  rw [Bool.eq_iff_iff]
  constructor
  · exact fun h => same_trans (same_trans ha.symm.same h) hb.same
  · exact fun h => same_trans (same_trans ha.same h) hb.symm.same

theorem forall₂_matches_iff {as bs : List (UnionType ν)} :
    List.Forall₂ Matches as bs
      ↔ sameAll as bs = true ∧ (∀ a ∈ as, a.Normal) ∧ ∀ b ∈ bs, b.Normal := by
  rw [sameAll_iff]
  constructor
  · intro h
    refine ⟨h.imp fun _ _ => Matches.same, fun a ha => ?_, fun b hb => ?_⟩
    · obtain ⟨_, _, hab⟩ := exists_of_forall₂_left h a ha
      exact hab.left
    · obtain ⟨_, _, hab⟩ := exists_of_forall₂_right h b hb
      exact hab.right
  · rintro ⟨h, has, hbs⟩
    induction h with
    | nil => exact .nil
    | cons hab _ ih =>
      rw [List.forall_mem_cons] at has hbs
      exact .cons ⟨has.1, hbs.1, hab⟩ (ih has.2 hbs.2)

end UnionType

namespace Entry

variable {d e : Entry ν}

theorem matches_of_same (hd : ∀ a ∈ d.parts, a.Normal) (he : ∀ b ∈ e.parts, b.Normal)
    (h : d.same e = true) : d.Matches e := by
  cases d with
  | named n as =>
    cases e with
    | function => simp [same] at h
    | named k bs =>
      simp only [same, Bool.and_eq_true, beq_iff_eq] at h
      obtain ⟨rfl, h⟩ := h
      exact .named n (forall₂_matches_iff.2 ⟨h, hd, he⟩)
  | function t ps r =>
    cases e with
    | named => simp [same] at h
    | function u qs s =>
      simp only [same, Bool.and_eq_true, beq_iff_eq] at h
      obtain ⟨⟨rfl, hps⟩, hr⟩ := h
      rw [parts, List.forall_mem_cons] at hd he
      exact .function t (forall₂_matches_iff.2 ⟨hps, hd.2, he.2⟩) ⟨hd.1, he.1, hr⟩

theorem Matches.same (h : d.Matches e) : d.same e = true := by
  cases h with
  | named n h => simp [Entry.same, (forall₂_matches_iff.1 h).1]
  | function t hps hr => simp [Entry.same, (forall₂_matches_iff.1 hps).1, hr.same]

theorem Matches.alike (h : d.Matches e) : d.Alike e := (same_iff.1 h.same).1

theorem Matches.normal (h : d.Matches e) :
    (∀ a ∈ d.parts, a.Normal) ∧ ∀ b ∈ e.parts, b.Normal := by
  cases h with
  | named n h => exact (forall₂_matches_iff.1 h).2
  | function t hps hr =>
    obtain ⟨_, hps, hqs⟩ := forall₂_matches_iff.1 hps
    exact ⟨List.forall_mem_cons.2 ⟨hr.left, hps⟩, List.forall_mem_cons.2 ⟨hr.right, hqs⟩⟩

end Entry

namespace UnionType

variable {a b : UnionType ν}

theorem matches_single {d e : Entry ν} (h : d.Matches e) : (single d).Matches (single e) where
  left := .single (settled_singleton d) h.normal.1
  right := .single (settled_singleton e) h.normal.2
  same := same_single h.same

theorem Matches.length_eq (h : a.Matches b) : a.entries.length = b.entries.length := by
  obtain ⟨es⟩ := a
  obtain ⟨fs⟩ := b
  exact (same_of_iff.1 h.same).1

theorem Matches.partners (h : a.Matches b) : Partners Entry.Matches a.entries b.entries := by
  obtain ⟨es⟩ := a
  obtain ⟨fs⟩ := b
  obtain ⟨_, hes⟩ := each_of_iff.1 h.left
  obtain ⟨_, hfs⟩ := each_of_iff.1 h.right
  constructor
  · intro e he
    obtain ⟨f, hf, hef⟩ := (same_of_iff.1 h.same).2 e he
    exact ⟨f, hf, Entry.matches_of_same (hes e he) (hfs f hf) hef⟩
  · intro f hf
    obtain ⟨e, he, hfe⟩ := (same_of_iff.1 h.symm.same).2 f hf
    have hef := Entry.same_symm (hfs f hf) hfe
    exact ⟨e, he, Entry.matches_of_same (hes e he) (hfs f hf) hef⟩

/-! ### What is asked about a type -/

theorem Matches.isBase_eq (h : a.Matches b) : a.isBase = b.isBase := by
  have hlen := h.length_eq
  rw [isBase, isBase, Bool.eq_iff_iff, List.isEmpty_iff_length_eq_zero,
    List.isEmpty_iff_length_eq_zero, hlen]

theorem Matches.isAny_eq (h : a.Matches b) : a.isAny = b.isAny :=
  h.partners.any_eq fun _ _ hde => Entry.isAny_of_alike hde.alike

theorem Matches.single? (h : a.Matches b) : Option.Rel Entry.Matches a.single? b.single? := by
  have hlen := h.length_eq
  have hpartners := h.partners
  obtain ⟨es⟩ := a
  obtain ⟨fs⟩ := b
  rw [entries_of, entries_of] at hlen hpartners
  rcases es with _ | ⟨e, _ | ⟨e', es⟩⟩ <;> rcases fs with _ | ⟨f, _ | ⟨f', fs⟩⟩ <;>
    simp only [List.length_cons, List.length_nil] at hlen <;> first | omega | skip
  · exact .none
  · obtain ⟨d, hd, hed⟩ := hpartners.left e (List.mem_singleton_self e)
    rw [List.mem_singleton.1 hd] at hed
    exact .some hed
  · exact .none

end UnionType

end

/-! ### Written types -/

namespace SourceType

variable {a b : SourceType}

theorem matches_bare (n : Name) : (UnionType.bare n : SourceType).Matches (.bare n) :=
  matches_single (.named n .nil)

theorem matches_named (n : Name) (h : a.Matches b) :
    (UnionType.named n [a] : SourceType).Matches (.named n [b]) :=
  matches_single (.named n (.cons h .nil))

/-- The union of matching types, in whatever order. -/
theorem matches_unionAll {ts us : List SourceType} (h : Partners UnionType.Matches ts us) :
    (UnionType.unionAll ts).Matches (.unionAll us) := by
  have hts : ∀ t ∈ ts, t.Normal := fun t ht => (h.left t ht).elim fun _ hu => hu.2.left
  have hus : ∀ u ∈ us, u.Normal := fun u hu => (h.right u hu).elim fun _ ht => ht.2.right
  have hnil : Settled ([] : List SourceEntry) := ⟨.nil, fun _ e he => by cases he⟩
  refine ⟨.unionAll kept_settled (fun _ => hnil) hts,
    .unionAll kept_settled (fun _ => hnil) hus, ?_⟩
  refine same_unionAll_of_partners (fun t ht => regular_of_normal (hts t ht))
    (fun u hu => regular_of_normal (hus u hu)) ⟨fun t ht => ?_, fun u hu => ?_⟩
  · exact (h.left t ht).imp fun u hu => ⟨hu.1, hu.2.same⟩
  · exact (h.right u hu).imp fun t ht => ⟨ht.1, ht.2.same⟩

theorem isBare_eq {d e : SourceEntry} (h : d.Matches e) (n : Name) :
    SourceEntry.isBare n d = SourceEntry.isBare n e := by
  cases h with
  | named k h => cases h <;> rfl
  | function => rfl

theorem isSingleNamed_eq (h : a.Matches b) (n : Name) : isSingleNamed n a = isSingleNamed n b := by
  have hsingle := h.single?
  simp only [isSingleNamed]
  generalize a.single? = o at hsingle ⊢
  generalize b.single? = o' at hsingle ⊢
  cases hsingle with
  | some hde => exact isBare_eq hde n
  | none => rfl

theorem isUnionMentioning_eq (h : a.Matches b) (n : Name) :
    isUnionMentioning n a = isUnionMentioning n b := by
  rw [isUnionMentioning, isUnionMentioning, h.length_eq,
    h.partners.any_eq fun _ _ hde => isBare_eq hde n]

end SourceType

/-! ### Substitution -/

namespace Substitution

variable {s s' : Substitution}

theorem matches_applyEntry (hs : s.Related UnionType.Matches s') {d e : SourceEntry}
    (hparts : ∀ a ∈ d.parts, ∀ {s s' : Substitution} {b : SourceType},
      s.Related UnionType.Matches s' → a.Matches b → (s.apply a).Matches (s'.apply b))
    (h : d.Matches e) : (s.applyEntry d).Matches (s'.applyEntry e) := by
  cases h with
  | @named n as bs h =>
    cases h with
    | nil =>
      have hn := hs n
      rw [applyEntry, applyEntry]
      generalize s.find? n = o at hn ⊢
      generalize s'.find? n = o' at hn ⊢
      cases hn with
      | some hab => exact hab
      | none => exact SourceType.matches_bare n
    | cons hab h =>
      rw [Entry.parts, List.forall_mem_cons] at hparts
      rw [applyEntry, applyEntry, applyAll_eq_map, applyAll_eq_map]
      refine matches_single (.named n (.cons (hparts.1 hs hab) ?_))
      exact forall₂_map h fun a ha b hab => hparts.2 a ha hs hab
  | function t hps hr =>
    rw [Entry.parts, List.forall_mem_cons] at hparts
    have hw := hs.filterKeys fun n => !t.generics.contains n
    rw [applyEntry, applyEntry, applyAll_eq_map, applyAll_eq_map]
    refine matches_single (.function t ?_ (hparts.1 hw hr))
    exact forall₂_map hps fun a ha b hab => hparts.2 a ha hw hab

/-- Matching types for the names, put into matching types. -/
theorem matches_apply (hs : s.Related UnionType.Matches s') {a b : SourceType} (h : a.Matches b) :
    (s.apply a).Matches (s'.apply b) := by
  induction a using parts_induction generalizing s s' b with
  | of es ih =>
    obtain ⟨fs⟩ := b
    rw [apply, apply, hs.isEmpty_eq]
    split
    · exact h
    · rw [applyEntries_eq_map, applyEntries_eq_map]
      refine SourceType.matches_unionAll (h.partners.map fun e he f hef => ?_)
      exact matches_applyEntry hs (fun a ha _ _ _ hs hab => ih e he a ha hs hab) hef

theorem related_ofBindings (names : List Name) {ts us : List SourceType}
    (h : List.Forall₂ UnionType.Matches ts us) :
    (ofBindings names ts).Related UnionType.Matches (ofBindings names us) :=
  Table.related_empty.insertAll_zip names h

end Substitution

/-! ### Solving generics -/

namespace Generics

variable {params qs actual bs : List SourceType} {result s : SourceType}

theorem isSome_ambiguity?_eq (generics : List Name) {ts us : List SourceType}
    (h : List.Forall₂ UnionType.Matches ts us) :
    (ambiguity? generics ts).isSome = (ambiguity? generics us).isSome := by
  have hany (g : Name) : (ts.find? fun t => SourceType.isUnionMentioning g t).isSome
      = (us.find? fun u => SourceType.isUnionMentioning g u).isSome := by
    rw [List.isSome_find?, List.isSome_find?]
    exact (partners_of_forall₂ h).any_eq fun t u htu => SourceType.isUnionMentioning_eq htu g
  simp only [ambiguity?, List.isSome_findSome?, Option.isSome_map, hany]

theorem matches_occurrences (g : Name) {ps qs as bs : List SourceType} {r s expected : SourceType}
    (hps : List.Forall₂ UnionType.Matches ps qs) (hr : r.Matches s)
    (has : List.Forall₂ UnionType.Matches as bs) (he : expected.Normal) :
    List.Forall₂ UnionType.Matches (occurrences g ps r as expected)
      (occurrences g qs s bs expected) := by
  refine List.rel_append ?_ ?_
  · induction hps generalizing as bs with
    | nil => exact .nil
    | @cons p q ps qs hpq _ ih =>
      cases has with
      | nil => exact .nil
      | @cons a b as bs hab has =>
        have hrest := ih has
        simp only [List.zip_cons_cons, List.filterMap_cons, SourceType.isSingleNamed_eq hpq g]
        cases SourceType.isSingleNamed g q with
        | true => exact .cons hab hrest
        | false => exact hrest
  · rw [SourceType.isSingleNamed_eq hr g]
    split
    · exact .cons (matches_refl he) .nil
    · exact .nil

theorem corresponds_assign (generics : List Name) {ps qs as bs : List SourceType}
    {r s expected : SourceType} (hps : List.Forall₂ UnionType.Matches ps qs) (hr : r.Matches s)
    (has : List.Forall₂ UnionType.Matches as bs) (he : expected.Normal) :
    Corresponds (fun _ _ => True) (List.Forall₂ UnionType.Matches)
      (assign generics ps r as expected).result (assign generics qs s bs expected).result := by
  have hambiguity := isSome_ambiguity?_eq generics (List.rel_append has (.cons hr .nil))
  unfold assign
  cases ha : ambiguity? generics (as ++ [r]) <;> cases hb : ambiguity? generics (bs ++ [s]) <;>
    rw [ha, hb] at hambiguity
  · simp only [Traced.result_mapM]
    refine corresponds_mapM (List.forall₂_same.2 fun g _ => ?_)
    have hsolution := SourceType.matches_unionAll
      (partners_of_forall₂ (matches_occurrences g hps hr has he))
    simp only [solve, hsolution.isBase_eq]
    split
    · trivial
    · exact hsolution
  · cases hambiguity
  · cases hambiguity
  · trivial

end Generics

end UnionTyping
