/-
  UnionTyping/Proofs/Types/Scopes.lean
  ====================================
  **Entries in scopes** — what a name in a type stands for depends on the functions
  around it, which may declare it as a generic.  `Holds scope e` says that the entry
  `e` stands somewhere in a type, inside functions that declare `scope`.

  A union changes the types inside entries, but it takes no entry out of its scope
  and makes none with another frame, except for the universal name.  So what is said
  about the entries of a type by their frames and scopes alone (`Framed`) holds of a
  union if it holds of both sides (`EachIn.union`).  The converse fails only where
  the universal type has absorbed a side (`eachIn_unionAll_iff`).
-/
import UnionTyping.Proofs.Types.Semilattice

namespace UnionTyping

variable {ν : Type}

namespace UnionType

/-- The entry stands in the type, inside functions that declare `scope`, the outermost
    function first. -/
inductive Holds : List Name → Entry ν → UnionType ν → Prop
  | here {es : List (Entry ν)} {e : Entry ν} : e ∈ es → Holds [] e (.of es)
  | inside {es : List (Entry ν)} {d e : Entry ν} {a : UnionType ν} {scope : List Name} :
      d ∈ es → a ∈ d.parts → Holds scope e a → Holds (d.generics ++ scope) e (.of es)

/-- `p` holds of every entry in the type, in its scope. -/
def EachIn (p : List Name → Entry ν → Prop) (t : UnionType ν) : Prop :=
  ∀ scope e, t.Holds scope e → p scope e

variable {p q : List Name → Entry ν → Prop} {t : UnionType ν}

theorem eachIn_of_iff {es : List (Entry ν)} :
    (of es).EachIn p
      ↔ ∀ e ∈ es, p [] e ∧ ∀ a ∈ e.parts, a.EachIn fun scope d => p (e.generics ++ scope) d := by
  constructor
  · intro h e he
    exact ⟨h [] e (.here he), fun a ha scope d hd => h _ d (.inside he ha hd)⟩
  · intro h scope e he
    cases he with
    | here he => exact (h e he).1
    | inside hd ha hin => exact (h _ hd).2 _ ha _ _ hin

theorem eachIn_single_iff {e : Entry ν} :
    (single e).EachIn p
      ↔ p [] e ∧ ∀ a ∈ e.parts, a.EachIn fun scope d => p (e.generics ++ scope) d := by
  rw [single, eachIn_of_iff, List.forall_mem_singleton]

theorem EachIn.imp (h : t.EachIn p) (hpq : ∀ scope e, p scope e → q scope e) : t.EachIn q :=
  fun scope e he => hpq scope e (h scope e he)

theorem not_has_iff_eachIn {P : Entry ν → Prop} : ¬t.Has P ↔ t.EachIn fun _ e => ¬P e := by
  constructor
  · intro h scope e he hP
    induction he with
    | here he => exact h (.here he hP)
    | inside hd ha _ ih => exact ih (fun hin => h (.inside hd ha hin)) hP
  · intro h hhas
    induction hhas with
    | here he hP => exact h [] _ (.here he) hP
    | inside hd ha _ ih => exact ih fun scope e he => h _ e (.inside hd ha he)

end UnionType

/-! ### Under a union -/

/-- A condition on entries in scopes that looks at their frames only.  Where it holds
    of an entry that absorbs a union, it holds of what the union is then. -/
structure Framed [Vocabulary ν] (p : List Name → Entry ν → Prop) : Prop where
  universal : ∀ {scope e}, p scope e → e.isAny = true → p scope .universal
  congr : ∀ {scope d e}, p scope e → d.frame = e.frame → p scope d

theorem Framed.enter [Vocabulary ν] {p : List Name → Entry ν → Prop} (hp : Framed p)
    (names : List Name) : Framed fun scope e => p (names ++ scope) e where
  universal h hany := hp.universal h hany
  congr h hframe := hp.congr h hframe

theorem Entry.isAny_of_frame [Vocabulary ν] {d e : Entry ν} (h : d.frame = e.frame) :
    d.isAny = e.isAny := by
  rcases d with ⟨n, _ | ⟨a, as⟩⟩ | ⟨t, ps, r⟩ <;> rcases e with ⟨m, _ | ⟨b, bs⟩⟩ | ⟨u, qs, s⟩ <;>
    simp_all [Entry.frame, Entry.isAny]

/-- Alike entries have one frame. -/
theorem Entry.frame_of_alike [DecidableEq ν] {d e : Entry ν} (h : d.Alike e) :
    d.frame = e.frame := by
  rcases d with ⟨n, as⟩ | ⟨t, ps, r⟩ <;> rcases e with ⟨m, bs⟩ | ⟨u, qs, s⟩
  · obtain ⟨rfl, hargs⟩ := h
    have hlen : as.length = bs.length := by
      rcases hargs with ⟨has, hbs⟩ | hsame
      · rw [has, hbs]
      · exact UnionType.length_of_sameAll hsame
    rw [Entry.frame, Entry.frame, hlen]
  · exact h.elim
  · exact h.elim
  · obtain ⟨rfl, _⟩ := h
    rfl

/-- The types inside an entry are below those inside an entry above it. -/
theorem Entry.Below.exists_part [DecidableEq ν] [Vocabulary ν] {d e : Entry ν} (h : d.Below e) :
    ∀ a ∈ d.parts, ∃ b ∈ e.parts, a.Below b := by
  have hall {as bs : List (UnionType ν)} (h : UnionType.sameAll as bs = true) :
      ∀ a ∈ as, ∃ b ∈ bs, a.Below b := by
    intro a ha
    obtain ⟨b, hb, hab⟩ := exists_of_forall₂_left (UnionType.sameAll_iff.1 h) a ha
    exact ⟨b, hb, UnionType.below_of_same hab⟩
  obtain ⟨halike, hvalue⟩ := h
  rcases d with ⟨n, as⟩ | ⟨t, ps, r⟩ <;> rcases e with ⟨m, bs⟩ | ⟨u, qs, s⟩
  · obtain ⟨rfl, ⟨has, hbs⟩ | hsame⟩ := halike
    · obtain ⟨a, rfl⟩ := List.length_eq_one_iff.1 has
      obtain ⟨b, rfl⟩ := List.length_eq_one_iff.1 hbs
      exact List.forall_mem_singleton.2 ⟨b, List.mem_singleton_self b, hvalue⟩
    · exact hall hsame
  · exact halike.elim
  · exact halike.elim
  · obtain ⟨rfl, hps⟩ := halike
    refine List.forall_mem_cons.2 ⟨⟨s, List.mem_cons_self .., hvalue⟩, fun p hp => ?_⟩
    obtain ⟨q, hq, hpq⟩ := hall hps p hp
    exact ⟨q, List.mem_cons_of_mem s hq, hpq⟩

theorem framed_not_isAny [Vocabulary ν] : Framed fun _ (e : Entry ν) => e.isAny = false where
  universal h hany := by
    rw [h] at hany
    cases hany
  congr h hframe := by rwa [Entry.isAny_of_frame hframe]

namespace UnionType

variable [DecidableEq ν] [Vocabulary ν] {p : List Name → Entry ν → Prop}

theorem EachIn.union (hp : Framed p) {a b : UnionType ν} (ha : a.EachIn p) (hb : b.EachIn p) :
    (a.union b).EachIn p := by
  induction b using parts_induction generalizing a p with
  | of fs ih =>
    obtain ⟨es⟩ := a
    have hes := eachIn_of_iff.1 ha
    have hfs := eachIn_of_iff.1 hb
    rcases union_cases es fs with ⟨_, h⟩ | ⟨_, h⟩ | ⟨hany, h⟩ | ⟨_, _, _, _, h⟩
    · rwa [h]
    · rwa [h]
    · rw [h, any, bare, named, eachIn_single_iff]
      refine ⟨?_, List.forall_mem_nil _⟩
      rcases hany with ⟨e, he, hany⟩ | ⟨f, hf, hany⟩
      · exact hp.universal (hes e he).1 hany
      · exact hp.universal (hfs f hf).1 hany
    · rw [h, eachIn_of_iff]
      refine Entry.forall_insertAll ?_ hes hfs
      rintro f hf d e hm ⟨hd, hdparts⟩
      obtain ⟨hframe, hframe'⟩ := Entry.frame_of_merge hm
      have hfparts := (hfs f hf).2
      rw [Entry.generics_of_frame hframe'] at hfparts
      rw [Entry.generics_of_frame hframe]
      refine ⟨hp.congr hd hframe, Entry.parts_of_merge hm hdparts ?_⟩
      exact fun b hb a ha => ih f hf b hb (hp.enter d.generics) ha (hfparts b hb)

theorem EachIn.unionAll (hp : Framed p) {ts : List (UnionType ν)} (hts : ∀ t ∈ ts, t.EachIn p) :
    (unionAll ts).EachIn p :=
  unionAll_induction (fun _ _ => EachIn.union hp)
    (fun _ => eachIn_of_iff.2 (List.forall_mem_nil _)) hts

/-! ### Under the order of types -/

/-- Below a type without a universal entry there is nothing that it does not have. -/
theorem EachIn.of_below (hp : Framed p) (hnot : ∀ scope e, p scope e → e.isAny = false)
    {a b : UnionType ν} (hb : b.EachIn p) (h : a.Below b) : a.EachIn p := by
  induction a using parts_induction generalizing b p with
  | of es ih =>
    obtain ⟨fs⟩ := b
    have hfs := eachIn_of_iff.1 hb
    rcases below_iff.1 h with ⟨f, hf, hany⟩ | h
    · rw [hnot _ f (hfs f hf).1] at hany
      cases hany
    refine eachIn_of_iff.2 fun e he => ?_
    obtain ⟨f, hf, hef⟩ := h e he
    obtain ⟨hfp, hfparts⟩ := hfs f hf
    have hframe := Entry.frame_of_alike hef.1
    rw [← Entry.generics_of_frame hframe] at hfparts
    refine ⟨hp.congr hfp hframe, fun a ha => ?_⟩
    obtain ⟨b, hb, hab⟩ := hef.exists_part a ha
    exact ih e he a ha (hp.enter e.generics) (fun scope d => hnot _ d) (hfparts b hb) hab

/-- Where nothing is absorbed, a union of normal types has what its elements have. -/
theorem eachIn_unionAll_iff (hp : Framed p) (hnot : ∀ scope e, p scope e → e.isAny = false)
    {ts : List (UnionType ν)} (hts : ∀ t ∈ ts, t.Normal) :
    (UnionType.unionAll ts).EachIn p ↔ ∀ t ∈ ts, t.EachIn p := by
  constructor
  · intro h t ht
    have hnormal : (UnionType.unionAll ts).Normal :=
      Each.unionAll kept_settled (fun _ => (each_of_iff.1 normal_base).1) hts
    exact h.of_below hp hnot ((unionAll_below_iff hts hnormal).1 (below_refl _) t ht)
  · exact EachIn.unionAll hp

end UnionType

end UnionTyping
