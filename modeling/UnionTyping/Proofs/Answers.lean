/-
  UnionTyping/Proofs/Answers.lean
  ===============================
  **Answers without a state** — an answer is a value or an error.  A sequence of
  answers succeeds exactly if its parts do, one after the other
  (`bind_eq_ok_iff`), and a list of answers succeeds place by place
  (`mapM_eq_ok_iff`).  What all values of the parts have in common, and all their
  errors, is shared by the whole (`Ensures`).
-/
import Mathlib.Data.List.Forall2

namespace UnionTyping

variable {ε α β : Type}

/-! ### Lists side by side -/

/-- An element of the first list has its partner in the second. -/
theorem exists_of_forall₂_left {R : α → β → Prop} {as : List α} {bs : List β}
    (h : List.Forall₂ R as bs) : ∀ a ∈ as, ∃ b ∈ bs, R a b := by
  induction h with
  | nil =>
    intro a ha
    cases ha
  | @cons x y as bs hxy _ ih =>
    intro a ha
    rcases List.mem_cons.1 ha with rfl | ha
    · exact ⟨y, List.mem_cons_self .., hxy⟩
    · obtain ⟨b, hb, hr⟩ := ih a ha
      exact ⟨b, List.mem_cons_of_mem _ hb, hr⟩

theorem exists_of_forall₂_right {R : α → β → Prop} {as : List α} {bs : List β}
    (h : List.Forall₂ R as bs) : ∀ b ∈ bs, ∃ a ∈ as, R a b := by
  intro b hb
  obtain ⟨a, ha, hr⟩ := exists_of_forall₂_left h.flip b hb
  exact ⟨a, ha, hr⟩

/-- Where each element has a partner with `Q`, the list has a list of such partners. -/
theorem exists_forall₂ {R : α → β → Prop} {Q : β → Prop} {as : List α}
    (h : ∀ a ∈ as, ∃ b, R a b ∧ Q b) : ∃ bs, List.Forall₂ R as bs ∧ ∀ b ∈ bs, Q b := by
  induction as with
  | nil => exact ⟨[], .nil, List.forall_mem_nil _⟩
  | cons a as ih =>
    rw [List.forall_mem_cons] at h
    obtain ⟨b, hb, hq⟩ := h.1
    obtain ⟨bs, hbs, hqs⟩ := ih h.2
    exact ⟨b :: bs, .cons hb hbs, List.forall_mem_cons.2 ⟨hq, hqs⟩⟩

/-! ### Sequences and lists of answers -/

theorem isSome_toOption_iff {x : Except ε α} :
    x.toOption.isSome = true ↔ ∃ a, x = .ok a := by
  cases x with
  | error e => simp [Except.toOption]
  | ok a => simp [Except.toOption]

theorem exists_of_toOption_map {x : Except ε α} {f : α → β} {b : β}
    (h : x.toOption.map f = some b) : ∃ a, x = .ok a ∧ f a = b := by
  cases x with
  | error e => cases h
  | ok a => exact ⟨a, rfl, Option.some.inj h⟩

theorem bind_eq_ok_iff {x : Except ε α} {f : α → Except ε β} {b : β} :
    (x >>= f) = .ok b ↔ ∃ a, x = .ok a ∧ f a = .ok b := by
  cases x with
  | error e => simp [bind, Except.bind]
  | ok a => simp [bind, Except.bind]

theorem bind_eq_error_iff {x : Except ε α} {f : α → Except ε β} {e : ε} :
    (x >>= f) = .error e ↔ x = .error e ∨ ∃ a, x = .ok a ∧ f a = .error e := by
  cases x with
  | error e => simp [bind, Except.bind]
  | ok a => simp [bind, Except.bind]

theorem mapM_eq_ok_iff {f : α → Except ε β} {as : List α} {bs : List β} :
    as.mapM f = .ok bs ↔ List.Forall₂ (fun a b => f a = .ok b) as bs := by
  induction as generalizing bs with
  | nil =>
    rw [List.mapM_nil, List.forall₂_nil_left_iff]
    constructor
    · intro h
      exact (Except.ok.inj h).symm
    · rintro rfl
      rfl
  | cons a as ih =>
    rw [List.mapM_cons, List.forall₂_cons_left_iff, bind_eq_ok_iff]
    constructor
    · rintro ⟨b, hb, h⟩
      obtain ⟨bs', hbs, he⟩ := bind_eq_ok_iff.1 h
      exact ⟨b, bs', hb, ih.1 hbs, (Except.ok.inj he).symm⟩
    · rintro ⟨b, bs', hb, hbs, rfl⟩
      exact ⟨b, hb, bind_eq_ok_iff.2 ⟨bs', ih.2 hbs, rfl⟩⟩

/-- The same where the value of an element is known by a relation. -/
theorem mapM_eq_ok_iff_of {R : α → β → Prop} {f : α → Except ε β} {as : List α} {bs : List β}
    (h : ∀ a ∈ as, ∀ b, f a = .ok b ↔ R a b) : as.mapM f = .ok bs ↔ List.Forall₂ R as bs := by
  rw [mapM_eq_ok_iff]
  induction as generalizing bs with
  | nil => rw [List.forall₂_nil_left_iff, List.forall₂_nil_left_iff]
  | cons a as ih =>
    rw [List.forall_mem_cons] at h
    simp only [List.forall₂_cons_left_iff, h.1, ih h.2]

theorem mapM_ok (f : α → β) (as : List α) :
    as.mapM (fun a => (.ok (f a) : Except ε β)) = .ok (as.map f) := List.mapM_pure ..

/-- A list of answers has the first error of its elements. -/
theorem exists_of_mapM_eq_error {f : α → Except ε β} {as : List α} {e : ε}
    (h : as.mapM f = .error e) : ∃ a ∈ as, f a = .error e := by
  induction as with
  | nil => cases h
  | cons a as ih =>
    rw [List.mapM_cons] at h
    rcases bind_eq_error_iff.1 h with h | ⟨b, _, h⟩
    · exact ⟨a, List.mem_cons_self .., h⟩
    · rcases bind_eq_error_iff.1 h with h | ⟨bs, _, h⟩
      · obtain ⟨x, hx, he⟩ := ih h
        exact ⟨x, List.mem_cons_of_mem _ hx, he⟩
      · cases h

theorem exists_mapM {Q : β → Prop} {f : α → Except ε β} {as : List α}
    (h : ∀ a ∈ as, ∃ b, f a = .ok b ∧ Q b) : ∃ bs, as.mapM f = .ok bs ∧ ∀ b ∈ bs, Q b := by
  obtain ⟨bs, hbs, hqs⟩ := exists_forall₂ h
  exact ⟨bs, mapM_eq_ok_iff.2 hbs, hqs⟩

theorem exists_mapM_iff {f : α → Except ε β} {as : List α} :
    (∃ bs, as.mapM f = .ok bs) ↔ ∀ a ∈ as, ∃ b, f a = .ok b := by
  constructor
  · rintro ⟨bs, hbs⟩ a ha
    obtain ⟨b, _, hb⟩ := exists_of_forall₂_left (mapM_eq_ok_iff.1 hbs) a ha
    exact ⟨b, hb⟩
  · intro h
    obtain ⟨bs, hbs, _⟩ := exists_mapM fun a ha => (h a ha).imp fun b hb => ⟨hb, trivial⟩
    exact ⟨bs, hbs⟩

/-- Related lists have related answers if related elements have. -/
theorem exists_mapM_of_forall₂ {γ δ : Type} {R : α → β → Prop} {S : γ → δ → Prop}
    {f : α → Except ε γ} {g : β → Except ε δ} {as : List α} {bs : List β} {cs : List γ}
    (hR : List.Forall₂ R as bs)
    (h : ∀ a ∈ as, ∀ b ∈ bs, R a b → ∀ c, f a = .ok c → ∃ d, g b = .ok d ∧ S c d)
    (hcs : as.mapM f = .ok cs) : ∃ ds, bs.mapM g = .ok ds ∧ List.Forall₂ S cs ds := by
  rw [mapM_eq_ok_iff] at hcs
  induction hR generalizing cs with
  | nil =>
    cases hcs
    exact ⟨[], rfl, .nil⟩
  | @cons a b as bs hab _ ih =>
    cases hcs with
    | cons hc hcs =>
      obtain ⟨d, hd, hS⟩ := h a (List.mem_cons_self ..) b (List.mem_cons_self ..) hab _ hc
      obtain ⟨ds, hds, hall⟩ := ih
        (fun a ha b hb => h a (List.mem_cons_of_mem _ ha) b (List.mem_cons_of_mem _ hb)) hcs
      exact ⟨d :: ds, mapM_eq_ok_iff.2 (.cons hd (mapM_eq_ok_iff.1 hds)), .cons hS hall⟩

/-! ### What values and errors have in common -/

/-- The answer is a value with `Q` or an error with `E`. -/
def Ensures (E : ε → Prop) (Q : α → Prop) : Except ε α → Prop
  | .ok a => Q a
  | .error e => E e

section

variable {E : ε → Prop} {Q : α → Prop} {R : β → Prop}

theorem Ensures.of_ok {x : Except ε α} {a : α} (h : Ensures E Q x) (hx : x = .ok a) : Q a := by
  rwa [hx] at h

theorem Ensures.of_error {x : Except ε α} {e : ε} (h : Ensures E Q x) (hx : x = .error e) :
    E e := by
  rwa [hx] at h

theorem Ensures.imp {Q' : α → Prop} {x : Except ε α} (h : Ensures E Q x)
    (hQ : ∀ a, x = .ok a → Q a → Q' a) : Ensures E Q' x := by
  cases x with
  | ok a => exact hQ a rfl h
  | error e => exact h

theorem ensures_bind {x : Except ε α} {f : α → Except ε β} (hx : Ensures E Q x)
    (hf : ∀ a, Q a → Ensures E R (f a)) : Ensures E R (x >>= f) := by
  cases x with
  | ok a => exact hf a hx
  | error e => exact hx

theorem ensures_mapM {f : α → Except ε β} {as : List α} (h : ∀ a ∈ as, Ensures E R (f a)) :
    Ensures E (fun bs => ∀ b ∈ bs, R b) (as.mapM f) := by
  induction as with
  | nil =>
    intro b hb
    cases hb
  | cons a as ih =>
    rw [List.forall_mem_cons] at h
    rw [List.mapM_cons]
    refine ensures_bind h.1 fun b hb => ensures_bind (ih h.2) fun bs hbs => ?_
    exact List.forall_mem_cons.2 ⟨hb, hbs⟩

end

/-! ### Two answers side by side -/

/-- Both answers are values, related by `Q`, or both are errors, related by `E`. -/
def Corresponds {ε' : Type} (E : ε → ε' → Prop) (Q : α → β → Prop) :
    Except ε α → Except ε' β → Prop
  | .ok a, .ok b => Q a b
  | .error e, .error e' => E e e'
  | _, _ => False

section

variable {ε' γ δ : Type} {E : ε → ε' → Prop} {Q : α → β → Prop} {R : γ → δ → Prop}

theorem Corresponds.imp {Q' : α → β → Prop} {x : Except ε α} {y : Except ε' β}
    (h : Corresponds E Q x y) (hQ : ∀ a b, x = .ok a → y = .ok b → Q a b → Q' a b) :
    Corresponds E Q' x y := by
  cases x with
  | ok a =>
    cases y with
    | ok b => exact hQ a b rfl rfl h
    | error e' => exact h
  | error e =>
    cases y with
    | ok b => exact h
    | error e' => exact h

theorem Corresponds.of_ok_left {x : Except ε α} {y : Except ε' β} {a : α}
    (h : Corresponds E Q x y) (hx : x = .ok a) : ∃ b, y = .ok b ∧ Q a b := by
  subst hx
  cases y with
  | ok b => exact ⟨b, rfl, h⟩
  | error e' => exact h.elim

theorem Corresponds.of_ok_right {x : Except ε α} {y : Except ε' β} {b : β}
    (h : Corresponds E Q x y) (hy : y = .ok b) : ∃ a, x = .ok a ∧ Q a b := by
  subst hy
  cases x with
  | ok a => exact ⟨a, rfl, h⟩
  | error e => exact h.elim

theorem corresponds_bind {x : Except ε α} {y : Except ε' β} {f : α → Except ε γ}
    {g : β → Except ε' δ} (h : Corresponds E Q x y)
    (hfg : ∀ a b, Q a b → Corresponds E R (f a) (g b)) : Corresponds E R (x >>= f) (y >>= g) := by
  cases x with
  | ok a =>
    cases y with
    | ok b => exact hfg a b h
    | error e' => exact h.elim
  | error e =>
    cases y with
    | ok b => exact h.elim
    | error e' => exact h

theorem corresponds_mapM {f : α → Except ε γ} {g : β → Except ε' δ} {as : List α} {bs : List β}
    (h : List.Forall₂ (fun a b => Corresponds E R (f a) (g b)) as bs) :
    Corresponds E (List.Forall₂ R) (as.mapM f) (bs.mapM g) := by
  induction h with
  | nil => exact List.Forall₂.nil
  | cons hab _ ih =>
    rw [List.mapM_cons, List.mapM_cons]
    exact corresponds_bind hab fun c d hcd => corresponds_bind ih fun cs ds hs => .cons hcd hs

end

/-! ### Partners -/

theorem forall₂_map {γ δ : Type} {R : α → β → Prop} {S : γ → δ → Prop} {f : α → γ} {g : β → δ}
    {as : List α} {bs : List β} (h : List.Forall₂ R as bs)
    (hfg : ∀ a ∈ as, ∀ b, R a b → S (f a) (g b)) : List.Forall₂ S (as.map f) (bs.map g) := by
  induction h with
  | nil => exact .nil
  | cons hab _ ih =>
    rw [List.forall_mem_cons] at hfg
    exact .cons (hfg.1 _ hab) (ih hfg.2)

/-- Each element of either list is related to one of the other, in whatever order. -/
structure Partners (R : α → β → Prop) (as : List α) (bs : List β) : Prop where
  left : ∀ a ∈ as, ∃ b ∈ bs, R a b
  right : ∀ b ∈ bs, ∃ a ∈ as, R a b

section

variable {ε' γ δ : Type} {E : ε → ε' → Prop} {R : α → β → Prop} {S : γ → δ → Prop} {as : List α}
  {bs : List β}

theorem partners_of_forall₂ (h : List.Forall₂ R as bs) : Partners R as bs :=
  ⟨exists_of_forall₂_left h, exists_of_forall₂_right h⟩

theorem Partners.any_eq (h : Partners R as bs) {p : α → Bool} {q : β → Bool}
    (hpq : ∀ a b, R a b → p a = q b) : as.any p = bs.any q := by
  rw [Bool.eq_iff_iff, List.any_eq_true, List.any_eq_true]
  constructor
  · rintro ⟨a, ha, hp⟩
    obtain ⟨b, hb, hr⟩ := h.left a ha
    exact ⟨b, hb, (hpq a b hr).symm.trans hp⟩
  · rintro ⟨b, hb, hq⟩
    obtain ⟨a, ha, hr⟩ := h.right b hb
    exact ⟨a, ha, (hpq a b hr).trans hq⟩

theorem Partners.map (h : Partners R as bs) {f : α → γ} {g : β → δ}
    (hfg : ∀ a ∈ as, ∀ b, R a b → S (f a) (g b)) : Partners S (as.map f) (bs.map g) := by
  constructor
  · intro c hc
    obtain ⟨a, ha, rfl⟩ := List.mem_map.1 hc
    obtain ⟨b, hb, hr⟩ := h.left a ha
    exact ⟨g b, List.mem_map_of_mem hb, hfg a ha b hr⟩
  · intro d hd
    obtain ⟨b, hb, rfl⟩ := List.mem_map.1 hd
    obtain ⟨a, ha, hr⟩ := h.right b hb
    exact ⟨f a, List.mem_map_of_mem ha, hfg a ha b hr⟩

/-- Which error comes first may depend on the order; whether there is one does not. -/
theorem Partners.corresponds_mapM (h : Partners R as bs) {f : α → Except ε γ}
    {g : β → Except ε' δ} (hfg : ∀ a b, R a b → Corresponds E S (f a) (g b)) :
    Corresponds (fun _ _ => True) (Partners S) (as.mapM f) (bs.mapM g) := by
  rcases hcs : as.mapM f with e | cs <;> rcases hds : bs.mapM g with e' | ds
  · trivial
  · -- the partner of the element in error would have a value
    obtain ⟨a, ha, he⟩ := exists_of_mapM_eq_error hcs
    obtain ⟨b, hb, hr⟩ := h.left a ha
    obtain ⟨d, _, hd⟩ := exists_of_forall₂_left (mapM_eq_ok_iff.1 hds) b hb
    obtain ⟨c, hc, _⟩ := (hfg a b hr).of_ok_right hd
    rw [he] at hc
    cases hc
  · obtain ⟨b, hb, he⟩ := exists_of_mapM_eq_error hds
    obtain ⟨a, ha, hr⟩ := h.right b hb
    obtain ⟨c, _, hc⟩ := exists_of_forall₂_left (mapM_eq_ok_iff.1 hcs) a ha
    obtain ⟨d, hd, _⟩ := (hfg a b hr).of_ok_left hc
    rw [he] at hd
    cases hd
  · have hcs := mapM_eq_ok_iff.1 hcs
    have hds := mapM_eq_ok_iff.1 hds
    constructor
    · intro c hc
      obtain ⟨a, ha, hac⟩ := exists_of_forall₂_right hcs c hc
      obtain ⟨b, hb, hr⟩ := h.left a ha
      obtain ⟨d, hd, hbd⟩ := exists_of_forall₂_left hds b hb
      obtain ⟨d', hd', hS⟩ := (hfg a b hr).of_ok_left hac
      obtain rfl := Except.ok.inj (hbd.symm.trans hd')
      exact ⟨d, hd, hS⟩
    · intro d hd
      obtain ⟨b, hb, hbd⟩ := exists_of_forall₂_right hds d hd
      obtain ⟨a, ha, hr⟩ := h.right b hb
      obtain ⟨c, hc, hac⟩ := exists_of_forall₂_left hcs a ha
      obtain ⟨c', hc', hS⟩ := (hfg a b hr).of_ok_right hbd
      obtain rfl := Except.ok.inj (hac.symm.trans hc')
      exact ⟨c, hc, hS⟩

end

end UnionTyping
