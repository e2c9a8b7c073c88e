/-
  UnionTyping/Proofs/Types/Parts.lean
  ===================================
  **Types inside types** — an entry holds types as its arguments, its parameters
  and its result.  What holds of a type as soon as it holds of the types inside
  holds of every type (`parts_induction`), and `Each p` says that `p` holds of
  the entries of a type at every depth.  A union makes new types inside an entry
  only by uniting old ones, so a condition on entries that survives adding them
  one by one (`Kept`) survives a union at every depth (`Each.union`).
-/
import UnionTyping.Proofs.Types.Canonical

namespace UnionTyping

variable {ν : Type}

/-! ### The types inside an entry -/

/-- The types that an entry is made of. -/
def Entry.parts : Entry ν → List (UnionType ν)
  | .named _ as => as
  | .function _ ps r => r :: ps

/-- What an entry is apart from the types inside. -/
def Entry.frame : Entry ν → (ν × Nat) ⊕ FunctionTraits
  | .named h as => .inl (h, as.length)
  | .function t _ _ => .inr t

/-- The names that an entry declares as generics. -/
def Entry.generics : Entry ν → List Name
  | .named .. => []
  | .function t _ _ => t.generics

/-- The entry that absorbs every other. -/
def Entry.universal [Vocabulary ν] : Entry ν := .named Vocabulary.any []

namespace UnionType

theorem parts_induction {P : UnionType ν → Prop}
    (of : ∀ es, (∀ e ∈ es, ∀ a ∈ e.parts, P a) → P (.of es)) (t : UnionType ν) : P t := by
  refine @UnionType.rec ν P (fun e => ∀ a ∈ e.parts, P a) (fun es => ∀ e ∈ es, ∀ a ∈ e.parts, P a)
    (fun ts => ∀ a ∈ ts, P a) of ?_ ?_ ?_ ?_ ?_ ?_ t
  · exact fun _ _ has => has
  · exact fun _ _ _ hps hr => List.forall_mem_cons.2 ⟨hr, hps⟩
  · exact fun e he => by cases he
  · exact fun _ _ he hes => List.forall_mem_cons.2 ⟨he, hes⟩
  · exact fun a ha => by cases ha
  · exact fun _ _ ha has => List.forall_mem_cons.2 ⟨ha, has⟩

/-- `p` holds of the entries of the type and of those of every type inside. -/
inductive Each (p : List (Entry ν) → Prop) : UnionType ν → Prop
  | of {es : List (Entry ν)} : p es → (∀ e ∈ es, ∀ a ∈ e.parts, Each p a) → Each p (.of es)

variable {p q : List (Entry ν) → Prop} {t : UnionType ν}

theorem each_of_iff {es : List (Entry ν)} :
    (of es).Each p ↔ p es ∧ ∀ e ∈ es, ∀ a ∈ e.parts, a.Each p := by
  constructor
  · rintro (⟨hes, hparts⟩)
    exact ⟨hes, hparts⟩
  · rintro ⟨hes, hparts⟩
    exact .of hes hparts

theorem Each.imp (hpq : ∀ es, p es → q es) (h : t.Each p) : t.Each q := by
  induction h with
  | of hes _ ih => exact .of (hpq _ hes) ih

theorem Each.and (hp : t.Each p) (hq : t.Each q) : t.Each fun es => p es ∧ q es := by
  induction hp with
  | of hes _ ih =>
    obtain ⟨hqs, hparts⟩ := each_of_iff.1 hq
    exact .of ⟨hes, hqs⟩ fun e he a ha => ih e he a ha (hparts e he a ha)

/-- An entry with `P` is somewhere in the type. -/
inductive Has (P : Entry ν → Prop) : UnionType ν → Prop
  | here {es : List (Entry ν)} {e : Entry ν} : e ∈ es → P e → Has P (.of es)
  | inside {es : List (Entry ν)} {e : Entry ν} {a : UnionType ν} :
      e ∈ es → a ∈ e.parts → Has P a → Has P (.of es)

theorem not_has_iff {P : Entry ν → Prop} : ¬t.Has P ↔ t.Each fun es => ∀ e ∈ es, ¬P e := by
  constructor
  · intro h
    induction t using parts_induction with
    | of es ih =>
      refine .of (fun e he hP => h (.here he hP)) ?_
      exact fun e he a ha => ih e he a ha fun hin => h (.inside he ha hin)
  · intro h hhas
    induction hhas with
    | here he hP => exact (each_of_iff.1 h).1 _ he hP
    | inside he ha _ ih => exact ih ((each_of_iff.1 h).2 _ he _ ha)

theorem has_single_iff {P : Entry ν → Prop} {e : Entry ν} :
    (single e).Has P ↔ P e ∨ ∃ a ∈ e.parts, a.Has P := by
  constructor
  · intro h
    cases h with
    | here he hP =>
      rw [List.mem_singleton.1 he] at hP
      exact Or.inl hP
    | inside he ha hin =>
      rw [List.mem_singleton.1 he] at ha
      exact Or.inr ⟨_, ha, hin⟩
  · rintro (hP | ⟨a, ha, hin⟩)
    · exact .here (List.mem_singleton_self e) hP
    · exact .inside (List.mem_singleton_self e) ha hin

theorem Each.single {e : Entry ν} (he : p [e]) (hparts : ∀ a ∈ e.parts, a.Each p) :
    (single e).Each p := by
  refine .of he ?_
  intro d hd
  rw [List.mem_singleton.1 hd]
  exact hparts

end UnionType

/-- Unions in a canonical type are neither empty nor unsettled. -/
theorem each_of_canonical {t : SourceType} (h : SourceType.Canonical t) :
    t.Each fun es => es ≠ [] ∧ Settled es := by
  induction t using UnionType.parts_induction with
  | of es ih =>
    unfold SourceType.Canonical at h
    obtain ⟨hne, hes, hall⟩ := h
    refine .of ⟨hne, hes⟩ ?_
    intro e he a ha
    apply ih e he a ha
    have hc := SourceEntry.allCanonical_iff.1 hall e he
    cases e with
    | named n as =>
      unfold SourceEntry.Canonical at hc
      exact SourceType.allCanonical_iff.1 hc.2 a ha
    | function u ps r =>
      unfold SourceEntry.Canonical at hc
      exact List.forall_mem_cons.2 ⟨hc.2.2.2, SourceType.allCanonical_iff.1 hc.2.2.1⟩ a ha

/-! ### Under a union -/

variable [DecidableEq ν] [Vocabulary ν] {p : List (Entry ν) → Prop}

/-- What two entries that meet become is made of what they are made of and of a
    union. -/
theorem Entry.parts_of_merge {P : UnionType ν → Prop} {d f e : Entry ν} (h : merge d f = some e)
    (hd : ∀ a ∈ d.parts, P a) (hf : ∀ b ∈ f.parts, ∀ a, P a → P (a.union b)) :
    ∀ a ∈ e.parts, P a := by
  rcases eq_of_merge h with ⟨k, a, b, rfl, rfl, rfl⟩ | ⟨t, ps, qs, r, s, rfl, rfl, rfl⟩
  · intro c hc
    rw [List.mem_singleton.1 hc]
    exact hf b (List.mem_singleton_self b) a (hd a (List.mem_singleton_self a))
  · refine List.forall_mem_cons.2 ⟨?_, fun c hc => hd c (List.mem_cons_of_mem r hc)⟩
    exact hf s (List.mem_cons_self ..) r (hd r (List.mem_cons_self ..))

theorem Entry.parts_insert {P : UnionType ν → Prop} {es : List (Entry ν)} {f : Entry ν}
    (hes : ∀ e ∈ es, ∀ a ∈ e.parts, P a) (hf : ∀ b ∈ f.parts, P b)
    (hunion : ∀ b ∈ f.parts, ∀ a, P a → P (a.union b)) :
    ∀ e ∈ insert es f, ∀ a ∈ e.parts, P a :=
  forall_insert (fun _ _ hm hd => parts_of_merge hm hd hunion) hes hf

theorem Entry.parts_insertAll {P : UnionType ν → Prop} {es fs : List (Entry ν)}
    (hes : ∀ e ∈ es, ∀ a ∈ e.parts, P a) (hfs : ∀ f ∈ fs, ∀ b ∈ f.parts, P b)
    (hunion : ∀ f ∈ fs, ∀ b ∈ f.parts, ∀ a, P a → P (a.union b)) :
    ∀ e ∈ insertAll es fs, ∀ a ∈ e.parts, P a :=
  forall_insertAll (fun f hf _ _ hm hd => parts_of_merge hm hd (hunion f hf)) hes hfs

/-- A condition on the entries of a type that looks at their frames only and
    survives adding entries. -/
structure Kept (p : List (Entry ν) → Prop) : Prop where
  universal : p [.universal]
  single : ∀ {es : List (Entry ν)} {e d : Entry ν}, p es → e ∈ es → d.frame = e.frame → p [d]
  insertAll : ∀ {es fs : List (Entry ν)}, p es → p fs → (∀ e ∈ es, e.isAny = false) →
    (∀ f ∈ fs, f.isAny = false) → p (Entry.insertAll es fs)

/-- A condition that survives adding entries and holds of all entries that can be
    written as a type. -/
structure Lasting (p : List (Entry ν) → Prop) : Prop extends Kept p where
  of_settled : ∀ {es : List (Entry ν)}, es ≠ [] → Settled es → p es

theorem kept_settled : Kept (Settled (ν := ν)) where
  universal := settled_singleton _
  single _ _ _ := settled_singleton _
  insertAll hes _ he hf := Entry.settled_insertAll hes.apart he hf

theorem kept_ne_nil : Kept fun es : List (Entry ν) => es ≠ [] where
  universal := List.cons_ne_nil _ _
  single _ _ _ := List.cons_ne_nil _ _
  insertAll hes _ _ _ := Entry.insertAll_ne_nil hes _

theorem Kept.and {q : List (Entry ν) → Prop} (hp : Kept p) (hq : Kept q) :
    Kept fun es => p es ∧ q es where
  universal := ⟨hp.universal, hq.universal⟩
  single hes he h := ⟨hp.single hes.1 he h, hq.single hes.2 he h⟩
  insertAll hes hfs he hf := ⟨hp.insertAll hes.1 hfs.1 he hf, hq.insertAll hes.2 hfs.2 he hf⟩

omit [DecidableEq ν] [Vocabulary ν] in
theorem Entry.generics_of_frame {d e : Entry ν} (h : d.frame = e.frame) :
    d.generics = e.generics := by
  cases d with
  | named =>
    cases e with
    | named => rfl
    | function => cases h
  | function =>
    cases e with
    | named => cases h
    | function => exact congrArg FunctionTraits.generics (Sum.inr.inj h)

/-- Entries that meet have one frame, and keep it. -/
theorem Entry.frame_of_merge {d f e : Entry ν} (h : merge d f = some e) :
    e.frame = d.frame ∧ f.frame = d.frame := by
  rcases eq_of_merge h with ⟨k, a, b, rfl, rfl, rfl⟩ | ⟨t, ps, qs, r, s, rfl, rfl, rfl⟩
  · exact ⟨rfl, rfl⟩
  · exact ⟨rfl, rfl⟩

theorem Entry.generics_of_merge {d f e : Entry ν} (h : merge d f = some e) :
    e.generics = d.generics := generics_of_frame (frame_of_merge h).1

/-- A condition on what functions declare. -/
theorem kept_generics {q : List Name → Prop} (hnil : q []) :
    Kept fun es : List (Entry ν) => ∀ e ∈ es, q e.generics where
  universal := List.forall_mem_singleton.2 hnil
  single := by
    intro es e d hes he hframe x hx
    rw [List.mem_singleton.1 hx, Entry.generics_of_frame hframe]
    exact hes e he
  insertAll hes hfs _ _ :=
    Entry.forall_insertAll (fun _ _ _ _ hm hd => by rwa [Entry.generics_of_merge hm]) hes hfs

theorem kept_undeclared (g : Name) : Kept fun es : List (Entry ν) => ∀ e ∈ es, g ∉ e.generics :=
  kept_generics (q := (g ∉ ·)) List.not_mem_nil

theorem lasting_settled : Lasting (Settled (ν := ν)) where
  toKept := kept_settled
  of_settled _ hes := hes

theorem lasting_ne_nil : Lasting fun es : List (Entry ν) => es ≠ [] where
  toKept := kept_ne_nil
  of_settled hne _ := hne

namespace UnionType

/-- A union keeps what holds of the entries at every depth. -/
theorem Each.union (hp : Kept p) {a b : UnionType ν} (ha : a.Each p) (hb : b.Each p) :
    (a.union b).Each p := by
  induction hb generalizing a with
  | @of fs hfs hparts ih =>
    obtain ⟨es⟩ := a
    obtain ⟨hes, heparts⟩ := each_of_iff.1 ha
    rcases union_cases es fs with ⟨_, h⟩ | ⟨_, h⟩ | ⟨_, h⟩ | ⟨_, _, he, hf, h⟩
    · rw [h]
      exact .of hfs hparts
    · rwa [h]
    · rw [h]
      exact .single hp.universal fun c hc => by cases hc
    · rw [h]
      exact .of (hp.insertAll hes hfs he hf)
        (Entry.parts_insertAll heparts hparts fun f hf b hb a ha => ih f hf b hb ha)

theorem Each.unionAll (hp : Kept p) {ts : List (UnionType ν)} (hbase : ts = [] → p [])
    (hts : ∀ t ∈ ts, t.Each p) : (UnionType.unionAll ts).Each p :=
  unionAll_induction (fun _ _ => Each.union hp)
    (fun h => .of (hbase h) fun e he => by cases he) hts

theorem Each.single_of_lasting (hp : Lasting p) {e : Entry ν} (hparts : ∀ a ∈ e.parts, a.Each p) :
    (UnionType.single e).Each p :=
  .single (hp.of_settled (List.cons_ne_nil _ _) (settled_singleton e)) hparts

/-- Empty types in a union count for nothing. -/
theorem Each.unionAll_or_base (hp : Kept p) {ts : List (UnionType ν)}
    (hts : ∀ t ∈ ts, t = base ∨ t.Each p) :
    UnionType.unionAll ts = base ∨ (UnionType.unionAll ts).Each p := by
  refine unionAll_induction (P := fun t => t = base ∨ t.Each p) ?_ (fun _ => Or.inl rfl) hts
  intro a b ha hb
  rcases ha with rfl | ha
  · rwa [base_union]
  rcases hb with rfl | hb
  · rw [union_base]
    exact Or.inr ha
  · exact Or.inr (Each.union hp ha hb)

end UnionType

end UnionTyping
