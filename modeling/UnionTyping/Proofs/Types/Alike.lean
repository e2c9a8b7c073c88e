/-
  UnionTyping/Proofs/Types/Alike.lean
  ===================================
  **Alike entries** — two entries are alike if a union never keeps them side by
  side: one-argument types of one name, functions of one signature, and entries
  that are the same.  Alike entries differ at most in one type, their `value`
  (the argument, or the result); they are the same if their values are
  (`same_iff`), and where they meet their values are united (`eq_of_merge`).

  Sameness of types compares lengths and looks only from left to right, so that
  it is not symmetric by definition.  It is if the left type is normal, where no
  two entries have one partner (`same_symm`).
-/
import Mathlib.Data.List.Forall2
import UnionTyping.Proofs.Tree.Equality
import UnionTyping.Proofs.Types.Parts

namespace UnionTyping

variable {ν : Type} [DecidableEq ν]

/-- The unions of the type are settled at every depth. -/
def UnionType.Normal [Vocabulary ν] (t : UnionType ν) : Prop := t.Each Settled

theorem normal_of_canonical {t : SourceType} (h : SourceType.Canonical t) : t.Normal :=
  (each_of_canonical h).imp fun _ hes => hes.2

namespace UnionType

variable [Vocabulary ν]

theorem normal_base : (base : UnionType ν).Normal :=
  .of ⟨.nil, fun _ e he => by cases he⟩ fun e he => by cases he

theorem Normal.union {a b : UnionType ν} (ha : a.Normal) (hb : b.Normal) : (a.union b).Normal :=
  Each.union kept_settled ha hb

end UnionType

/-! ### Entries and their values -/

namespace Entry

def Alike : Entry ν → Entry ν → Prop
  | .named h as, .named k bs =>
    h = k ∧ (as.length = 1 ∧ bs.length = 1 ∨ UnionType.sameAll as bs = true)
  | .function t ps _, .function u qs _ => t = u ∧ UnionType.sameAll ps qs = true
  | _, _ => False

/-- What alike entries may differ in. -/
def value : Entry ν → UnionType ν
  | .named _ [a] => a
  | .named _ _ => .base
  | .function _ _ r => r

omit [DecidableEq ν] in
/-- The value is one of the parts, or empty. -/
theorem value_induction {P : UnionType ν → Prop} {e : Entry ν} (hbase : P .base)
    (hparts : ∀ a ∈ e.parts, P a) : P e.value := by
  rcases e with ⟨h, _ | ⟨a, _ | ⟨b, as⟩⟩⟩ | ⟨t, ps, r⟩
  · exact hbase
  · exact hparts a (List.mem_singleton_self a)
  · exact hbase
  · exact hparts r (List.mem_cons_self ..)

theorem alike_refl (e : Entry ν) : Alike e e := by
  cases e with
  | named h as => exact ⟨rfl, Or.inr (UnionType.sameAll_refl as)⟩
  | function t ps r => exact ⟨rfl, UnionType.sameAll_refl ps⟩

/-- Entries that are alike are the same up to their values. -/
theorem same_iff {d e : Entry ν} : d.same e = true ↔ Alike d e ∧ d.value.same e.value = true := by
  have hbase : UnionType.same (.base : UnionType ν) .base = true := UnionType.same_refl _
  cases d with
  | function t ps r =>
    cases e with
    | named k bs => simp [same, Alike]
    | function u qs s => simp [same, Alike, value, and_assoc]
  | named h as =>
    cases e with
    | function u qs s => simp [same, Alike]
    | named k bs =>
      rcases as with _ | ⟨a, _ | ⟨a', as⟩⟩ <;> rcases bs with _ | ⟨b, _ | ⟨b', bs⟩⟩ <;>
        simp [same, Alike, value, UnionType.sameAll, hbase]

variable [Vocabulary ν]

/-- A union keeps side by side exactly the entries that are not alike. -/
theorem apart_iff {d e : Entry ν} : Apart d e ↔ ¬Alike d e := by
  have hmerge : d.merge e = none ↔ (d.merge e).isSome = false := by
    cases d.merge e <;> simp
  rw [Apart, hmerge]
  cases d with
  | function t ps r =>
    cases e with
    | named k bs => simp [same, Alike]
    | function u qs s =>
      rw [Bool.eq_false_iff, Bool.eq_false_iff, ne_eq, ne_eq, merge_function_isSome]
      simp only [same, Alike, Bool.and_eq_true, beq_iff_eq]
      exact and_iff_right_of_imp fun h hs => h hs.1
  | named h as =>
    cases e with
    | function u qs s => simp [same, Alike]
    | named k bs =>
      rw [Bool.eq_false_iff, Bool.eq_false_iff, ne_eq, ne_eq, merge_named_isSome]
      simp only [same, Alike, Bool.and_eq_true, beq_iff_eq, List.length_eq_one_iff]
      constructor
      · rintro ⟨hs, hm⟩ ⟨hk, ⟨⟨a, ha⟩, b, hb⟩ | hsame⟩
        · exact hm ⟨hk, a, b, ha, hb⟩
        · exact hs ⟨hk, hsame⟩
      · intro hna
        refine ⟨fun hs => hna ⟨hs.1, Or.inr hs.2⟩, ?_⟩
        rintro ⟨hk, a, b, ha, hb⟩
        exact hna ⟨hk, Or.inl ⟨⟨a, ha⟩, b, hb⟩⟩

/-- Where two entries meet they are alike, the first stays what it is but for
    its value, and the values are united. -/
theorem alike_of_merge {d f e : Entry ν} (h : merge d f = some e) :
    Alike d f ∧ (Alike d e ∧ Alike e d) ∧ e.value = d.value.union f.value := by
  have hsome : (merge d f).isSome = true := by rw [h]; rfl
  rcases eq_of_merge h with ⟨k, a, b, rfl, rfl, rfl⟩ | ⟨t, ps, qs, r, s, rfl, rfl, rfl⟩
  · have halike (x y : UnionType ν) : Alike (.named k [x]) (.named k [y]) :=
      ⟨rfl, Or.inl ⟨rfl, rfl⟩⟩
    exact ⟨halike _ _, ⟨halike _ _, halike _ _⟩, rfl⟩
  · have hps := (merge_function_isSome.1 hsome).2
    have ht : Alike (.function t ps r) (.function t ps (r.union s)) :=
      ⟨rfl, UnionType.sameAll_refl ps⟩
    exact ⟨⟨rfl, hps⟩, ⟨ht, ht⟩, rfl⟩

theorem isAny_of_alike {d e : Entry ν} (h : Alike d e) : d.isAny = e.isAny := by
  rcases d with ⟨h₁, _ | ⟨a, as⟩⟩ | ⟨t, ps, r⟩ <;> rcases e with ⟨h₂, _ | ⟨b, bs⟩⟩ | ⟨u, qs, s⟩ <;>
    simp_all [Alike, isAny, UnionType.sameAll]

end Entry

/-! ### Sameness is transitive -/

/-- In two lists without repetition, partners for all elements of the first are
    partners for all elements of the second if that is no longer. -/
theorem partners {α β : Type} {R : α → β → Prop} {as : List α} {bs : List β}
    (h : ∀ a ∈ as, ∃ b ∈ bs, R a b)
    (hinj : as.Pairwise fun a a' => ∀ b ∈ bs, R a b → ¬R a' b) :
    as.length ≤ bs.length ∧ (as.length = bs.length → ∀ b ∈ bs, ∃ a ∈ as, R a b) := by
  induction as generalizing bs with
  | nil =>
    refine ⟨Nat.zero_le _, ?_⟩
    intro hlen b hb
    rw [List.eq_nil_of_length_eq_zero hlen.symm] at hb
    cases hb
  | cons a as ih =>
    obtain ⟨b, hb, hab⟩ := h a (List.mem_cons_self ..)
    obtain ⟨l, r, rfl⟩ := List.append_of_mem hb
    rw [List.pairwise_cons] at hinj
    have hmem {c : β} : c ∈ l ++ b :: r ↔ c = b ∨ c ∈ l ++ r := by
      simp only [List.mem_append, List.mem_cons, or_left_comm]
    have hrest : ∀ a' ∈ as, ∃ c ∈ l ++ r, R a' c := by
      intro a' ha'
      obtain ⟨c, hc, hr⟩ := h a' (List.mem_cons_of_mem _ ha')
      rcases hmem.1 hc with rfl | hc
      · exact absurd hr (hinj.1 a' ha' c hb hab)
      · exact ⟨c, hc, hr⟩
    obtain ⟨hle, hsurj⟩ := ih hrest <| hinj.2.imp fun hx c hc => hx c (hmem.2 (Or.inr hc))
    simp only [List.length_append, List.length_cons] at hle hsurj ⊢
    refine ⟨by omega, ?_⟩
    intro hlen c hc
    rcases hmem.1 hc with rfl | hc
    · exact ⟨a, List.mem_cons_self .., hab⟩
    · obtain ⟨a', ha', hr⟩ := hsurj (by omega) c hc
      exact ⟨a', List.mem_cons_of_mem _ ha', hr⟩

namespace UnionType

theorem same_of_iff {es fs : List (Entry ν)} :
    same (of es) (of fs) = true
      ↔ es.length = fs.length ∧ ∀ e ∈ es, ∃ f ∈ fs, e.same f = true := by
  have hall : Entry.allAmong es fs = true ↔ ∀ e ∈ es, ∃ f ∈ fs, e.same f = true := by
    induction es with
    | nil => simp [Entry.allAmong]
    | cons e es ih => simp [Entry.allAmong, ih]
  rw [same, Bool.and_eq_true, beq_iff_eq, hall]

theorem same_single {d e : Entry ν} (h : d.same e = true) : (single d).same (single e) = true :=
  same_of_iff.2 ⟨rfl, List.forall_mem_singleton.2 ⟨e, List.mem_singleton_self e, h⟩⟩

theorem sameAll_iff {as bs : List (UnionType ν)} :
    sameAll as bs = true ↔ List.Forall₂ (fun a b => a.same b = true) as bs := by
  induction as generalizing bs with
  | nil => cases bs <;> simp [sameAll]
  | cons a as ih => cases bs <;> simp [sameAll, ih]

theorem sameAll_trans {as bs cs : List (UnionType ν)}
    (h : ∀ a ∈ as, ∀ b c, a.same b = true → b.same c = true → a.same c = true)
    (hab : sameAll as bs = true) (hbc : sameAll bs cs = true) : sameAll as cs = true := by
  rw [sameAll_iff] at hab hbc ⊢
  induction hab generalizing cs with
  | nil => exact hbc
  | cons hx _ ih =>
    rw [List.forall_mem_cons] at h
    cases hbc with
    | cons hy hbc => exact .cons (h.1 _ _ hx hy) (ih h.2 hbc)

theorem sameAll_symm_of {as bs : List (UnionType ν)}
    (h : ∀ a ∈ as, ∀ b ∈ bs, a.same b = true → b.same a = true) (hab : sameAll as bs = true) :
    sameAll bs as = true := by
  rw [sameAll_iff] at hab ⊢
  induction hab with
  | nil => exact .nil
  | cons hx _ ih =>
    refine .cons (h _ (List.mem_cons_self ..) _ (List.mem_cons_self ..) hx) (ih ?_)
    exact fun a ha b hb => h a (List.mem_cons_of_mem _ ha) b (List.mem_cons_of_mem _ hb)

theorem length_of_sameAll {as bs : List (UnionType ν)} (h : sameAll as bs = true) :
    as.length = bs.length :=
  (sameAll_iff.1 h).length_eq

end UnionType

theorem Entry.alike_trans_of {d e f : Entry ν}
    (h : ∀ a ∈ d.parts, ∀ b c : UnionType ν, a.same b = true → b.same c = true → a.same c = true)
    (hde : Alike d e) (hef : Alike e f) : Alike d f := by
  cases d with
  | named i as =>
    cases e with
    | function => exact hde.elim
    | named j bs =>
      cases f with
      | function => exact hef.elim
      | named k cs =>
        obtain ⟨rfl, hde⟩ := hde
        obtain ⟨rfl, hef⟩ := hef
        refine ⟨rfl, ?_⟩
        rcases hde with hde | hde
        · rcases hef with hef | hef
          · exact Or.inl ⟨hde.1, hef.2⟩
          · exact Or.inl ⟨hde.1, (UnionType.length_of_sameAll hef).symm.trans hde.2⟩
        · rcases hef with hef | hef
          · exact Or.inl ⟨(UnionType.length_of_sameAll hde).trans hef.1, hef.2⟩
          · exact Or.inr (UnionType.sameAll_trans h hde hef)
  | function t ps r =>
    cases e with
    | named => exact hde.elim
    | function u qs s =>
      cases f with
      | named => exact hef.elim
      | function v rs w =>
        obtain ⟨rfl, hde⟩ := hde
        obtain ⟨rfl, hef⟩ := hef
        exact ⟨rfl, UnionType.sameAll_trans (fun a ha => h a (List.mem_cons_of_mem r ha)) hde hef⟩

theorem UnionType.same_trans {a b c : UnionType ν} (hab : a.same b = true)
    (hbc : b.same c = true) : a.same c = true := by
  induction a using parts_induction generalizing b c with
  | of es ih =>
    obtain ⟨fs⟩ := b
    obtain ⟨gs⟩ := c
    rw [same_of_iff] at hab hbc ⊢
    refine ⟨hab.1.trans hbc.1, ?_⟩
    intro e he
    obtain ⟨f, hf, hef⟩ := hab.2 e he
    obtain ⟨g, hg, hfg⟩ := hbc.2 f hf
    rw [Entry.same_iff] at hef hfg
    have hparts : ∀ a ∈ e.parts, ∀ b c : UnionType ν,
        a.same b = true → b.same c = true → a.same c = true :=
      fun a ha _ _ hab hbc => ih e he a ha hab hbc
    refine ⟨g, hg, Entry.same_iff.2 ⟨Entry.alike_trans_of hparts hef.1 hfg.1, ?_⟩⟩
    refine Entry.value_induction (P := fun v => ∀ b c : UnionType ν,
      v.same b = true → b.same c = true → v.same c = true) ?_ hparts _ _ hef.2 hfg.2
    rintro ⟨fs⟩ ⟨gs⟩ h₁ h₂
    rw [base, same_of_iff] at h₁ ⊢
    rw [same_of_iff] at h₂
    exact ⟨h₁.1.trans h₂.1, fun e he => by cases he⟩

theorem Entry.alike_trans {d e f : Entry ν} (hde : Alike d e) (hef : Alike e f) : Alike d f :=
  alike_trans_of (fun _ _ _ _ => UnionType.same_trans) hde hef

theorem Entry.same_trans {d e f : Entry ν} (hde : d.same e = true) (hef : e.same f = true) :
    d.same f = true := by
  rw [same_iff] at hde hef ⊢
  exact ⟨alike_trans hde.1 hef.1, UnionType.same_trans hde.2 hef.2⟩

/-! ### Sameness is symmetric on normal types -/

theorem Entry.alike_symm_of {d e : Entry ν}
    (h : ∀ a ∈ d.parts, ∀ b ∈ e.parts, a.same b = true → b.same a = true) (hde : Alike d e) :
    Alike e d := by
  cases d with
  | named i as =>
    cases e with
    | function => exact hde.elim
    | named j bs =>
      obtain ⟨rfl, hde⟩ := hde
      exact ⟨rfl, hde.imp And.symm (UnionType.sameAll_symm_of h)⟩
  | function t ps r =>
    cases e with
    | named => exact hde.elim
    | function u qs s =>
      obtain ⟨rfl, hde⟩ := hde
      refine ⟨rfl, UnionType.sameAll_symm_of ?_ hde⟩
      exact fun a ha b hb => h a (List.mem_cons_of_mem r ha) b (List.mem_cons_of_mem s hb)

theorem Entry.same_symm_of {d e : Entry ν}
    (h : ∀ a ∈ d.parts, ∀ b ∈ e.parts, a.same b = true → b.same a = true)
    (hde : d.same e = true) : e.same d = true := by
  cases d with
  | named i as =>
    cases e with
    | function => simp [same] at hde
    | named j bs =>
      simp only [same, Bool.and_eq_true, beq_iff_eq] at hde ⊢
      exact ⟨hde.1.symm, UnionType.sameAll_symm_of h hde.2⟩
  | function t ps r =>
    cases e with
    | named => simp [same] at hde
    | function u qs s =>
      simp only [same, Bool.and_eq_true, beq_iff_eq] at hde ⊢
      refine ⟨⟨hde.1.1.symm, UnionType.sameAll_symm_of ?_ hde.1.2⟩, ?_⟩
      · exact fun a ha b hb => h a (List.mem_cons_of_mem r ha) b (List.mem_cons_of_mem s hb)
      · exact h r (List.mem_cons_self ..) s (List.mem_cons_self ..) hde.2

section

variable [Vocabulary ν]

/-- Where the left one of two same types is settled, each entry of the right one
    is the partner of an entry. -/
theorem UnionType.exists_same_of {es fs : List (Entry ν)} (hes : es.Pairwise Entry.Apart)
    (hsymm : ∀ e ∈ es, ∀ f ∈ fs, e.same f = true → f.same e = true)
    (h : (of es).same (of fs) = true) : ∀ f ∈ fs, ∃ e ∈ es, e.same f = true := by
  rw [same_of_iff] at h
  -- two entries with one partner would be the same
  have hinj : es.Pairwise fun e e' => ∀ f ∈ fs, e.same f = true → ¬e'.same f = true := by
    refine hes.imp_of_mem ?_
    intro e e' _ he' hapart f hf hef hef'
    have hsame := Entry.same_trans hef (hsymm e' he' f hf hef')
    rw [hapart.1] at hsame
    cases hsame
  exact (partners h.2 hinj).2 h.1

theorem UnionType.same_symm {a b : UnionType ν} (ha : a.Normal) (h : a.same b = true) :
    b.same a = true := by
  induction a using parts_induction generalizing b with
  | of es ih =>
    obtain ⟨fs⟩ := b
    obtain ⟨hes, heparts⟩ := each_of_iff.1 ha
    have hsymm : ∀ e ∈ es, ∀ f ∈ fs, e.same f = true → f.same e = true := by
      intro e he f hf
      apply Entry.same_symm_of
      exact fun x hx y _ => ih e he x hx (heparts e he x hx)
    have hsurj := exists_same_of hes.apart hsymm h
    rw [same_of_iff] at h ⊢
    refine ⟨h.1.symm, ?_⟩
    intro f hf
    obtain ⟨e, he, hef⟩ := hsurj f hf
    exact ⟨e, he, hsymm e he f hf hef⟩

theorem Entry.alike_symm {d e : Entry ν} (hd : ∀ a ∈ d.parts, a.Normal) (h : Alike d e) :
    Alike e d :=
  alike_symm_of (fun a ha _ _ => UnionType.same_symm (hd a ha)) h

theorem Entry.same_symm {d e : Entry ν} (hd : ∀ a ∈ d.parts, a.Normal) (h : d.same e = true) :
    e.same d = true :=
  same_symm_of (fun a ha _ _ => UnionType.same_symm (hd a ha)) h

end

end UnionTyping
