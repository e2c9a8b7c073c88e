/-
  UnionTyping/Proofs/Text/Trim.lean
  =================================
  **Trimming** — a text is blank space, its trimmed text and blank space again
  (`exists_eq_append_trim`), and blank space around a text does not change what
  trimming leaves of it (`trim_append_blank`).  A text without blank space at
  either end is its own trimmed text.
-/
import Mathlib.Data.List.TakeWhile
import UnionTyping.Text.Basic

namespace UnionTyping.Text

/-- The characters of a list are tried one by one, and not all that there are. -/
instance (priority := high) decidableForallMem {P : Char → Prop} [DecidablePred P] (l : List Char) :
    Decidable (∀ c ∈ l, P c) := List.decidableBAll P l

/-- Blank space only. -/
def Blank (t : Text) : Prop := ∀ c ∈ t, isBlank c = true

/-- No blank space at either end. -/
def Trimmed (t : Text) : Prop :=
  (∀ c, t.head? = some c → isBlank c = false) ∧ ∀ c, t.getLast? = some c → isBlank c = false

/-- All blank characters. -/
def blanks : List Char :=
  [0x9, 0xA, 0xB, 0xC, 0xD, 0x20, 0x85, 0xA0, 0x1680, 0x2000, 0x2001, 0x2002, 0x2003, 0x2004,
    0x2005, 0x2006, 0x2007, 0x2008, 0x2009, 0x200A, 0x2028, 0x2029, 0x202F, 0x205F,
    0x3000].map Char.ofNat

theorem mem_blanks {c : Char} (h : isBlank c = true) : c ∈ blanks := by
  refine List.mem_map.2 ⟨c.toNat, ?_, Char.ofNat_toNat c⟩
  simp only [isBlank, Bool.or_eq_true, Bool.and_eq_true, decide_eq_true_eq, beq_iff_eq] at h
  simp only [List.mem_cons, List.not_mem_nil, or_false]
  omega

theorem isBlank_of_forall {p : Char → Bool} (hp : ∀ d ∈ blanks, p d = false) {c : Char}
    (hc : p c = true) : isBlank c = false := by
  cases h : isBlank c with
  | false => rfl
  | true =>
    rw [hp c (mem_blanks h)] at hc
    cases hc

theorem blank_nil : Blank [] := by
  intro c hc
  cases hc

theorem Blank.append {t u : Text} (ht : Blank t) (hu : Blank u) : Blank (t ++ u) := by
  intro c hc
  rcases List.mem_append.1 hc with hc | hc
  · exact ht c hc
  · exact hu c hc

theorem Blank.of_append {t u : Text} (h : Blank (t ++ u)) : Blank t ∧ Blank u :=
  ⟨fun c hc => h c (List.mem_append_left u hc), fun c hc => h c (List.mem_append_right t hc)⟩

/-! ### One end -/

theorem exists_eq_append_trimStart (t : Text) : ∃ l, t = l ++ trimStart t ∧ Blank l := by
  refine ⟨t.takeWhile isBlank, List.takeWhile_append_dropWhile.symm, ?_⟩
  intro c hc
  exact List.mem_takeWhile_imp hc

theorem exists_eq_trimEnd_append (t : Text) : ∃ r, t = trimEnd t ++ r ∧ Blank r := by
  obtain ⟨l, hl, hb⟩ := exists_eq_append_trimStart t.reverse
  refine ⟨l.reverse, ?_, ?_⟩
  · have h := congrArg List.reverse hl
    simpa [trimEnd, trimStart] using h
  · intro c hc
    exact hb c (List.mem_reverse.1 hc)

theorem head?_trimStart {t : Text} {c : Char} (h : (trimStart t).head? = some c) :
    isBlank c = false := by
  induction t with
  | nil => simp [trimStart] at h
  | cons d t ih =>
    by_cases hd : isBlank d = true
    · apply ih
      rwa [trimStart, List.dropWhile_cons_of_pos hd] at h
    · rw [trimStart, List.dropWhile_cons_of_neg hd] at h
      obtain rfl := Option.some.inj h
      simpa using hd

theorem getLast?_trimEnd {t : Text} {c : Char} (h : (trimEnd t).getLast? = some c) :
    isBlank c = false := by
  rw [trimEnd, List.getLast?_reverse] at h
  exact head?_trimStart h

theorem trimStart_append_blank {l t : Text} (hl : Blank l) :
    trimStart (l ++ t) = trimStart t :=
  List.dropWhile_append_of_pos hl

theorem trimEnd_append_blank {t r : Text} (hr : Blank r) : trimEnd (t ++ r) = trimEnd t := by
  have hr' : ∀ c ∈ r.reverse, isBlank c = true := fun c hc => hr c (List.mem_reverse.1 hc)
  simp only [trimEnd, List.reverse_append, List.dropWhile_append_of_pos hr']

theorem trimStart_eq_self {t : Text} (h : ∀ c, t.head? = some c → isBlank c = false) :
    trimStart t = t := by
  cases t with
  | nil => rfl
  | cons c t =>
    have hc := h c rfl
    rw [trimStart, List.dropWhile_cons_of_neg (by simp [hc])]

theorem trimStart_of_head? {t : Text} {c : Char} (h : t.head? = some c) (hc : isBlank c = false) :
    trimStart t = t := by
  apply trimStart_eq_self
  intro d hd
  rw [h] at hd
  obtain rfl := Option.some.inj hd
  exact hc

theorem trimEnd_eq_self {t : Text} (h : ∀ c, t.getLast? = some c → isBlank c = false) :
    trimEnd t = t := by
  have h' : t.reverse.dropWhile isBlank = t.reverse := by
    apply trimStart_eq_self
    intro c hc
    rw [List.head?_reverse] at hc
    exact h c hc
  rw [trimEnd, h', List.reverse_reverse]

/-! ### Both ends -/

theorem trimmed_trimEnd {t : Text} (h : ∀ c, t.head? = some c → isBlank c = false) :
    Trimmed (trimEnd t) := by
  obtain ⟨r, hr, _⟩ := exists_eq_trimEnd_append t
  refine ⟨fun c hc => h c ?_, fun c hc => getLast?_trimEnd hc⟩
  rw [hr, List.head?_append, hc]
  rfl

theorem trimmed_trim (t : Text) : Trimmed (trim t) :=
  trimmed_trimEnd fun _ hc => head?_trimStart hc

theorem trim_eq_self {t : Text} (h : Trimmed t) : trim t = t := by
  rw [trim, trimStart_eq_self h.1, trimEnd_eq_self h.2]

theorem trim_trim (t : Text) : trim (trim t) = trim t := trim_eq_self (trimmed_trim t)

theorem exists_eq_append_trim (t : Text) :
    ∃ l r, t = l ++ (trim t ++ r) ∧ Blank l ∧ Blank r := by
  obtain ⟨l, hl, hbl⟩ := exists_eq_append_trimStart t
  obtain ⟨r, hr, hbr⟩ := exists_eq_trimEnd_append (trimStart t)
  refine ⟨l, r, ?_, hbl, hbr⟩
  rw [trim, ← hr]
  exact hl

theorem trim_eq_nil_iff {t : Text} : trim t = [] ↔ Blank t := by
  constructor
  · intro h
    obtain ⟨l, r, he, hl, hr⟩ := exists_eq_append_trim t
    rw [h, List.nil_append] at he
    rw [he]
    exact hl.append hr
  · intro h
    have hs : trimStart t = [] := List.dropWhile_eq_nil_iff.2 h
    rw [trim, hs]
    rfl

theorem allBlank_iff {t : Text} : allBlank t = true ↔ Blank t := by
  rw [allBlank, List.isEmpty_iff, trim_eq_nil_iff]

/-- Blank space around a text is trimmed away with the text's own. -/
theorem trim_append_blank {l t r : Text} (hl : Blank l) (hr : Blank r) :
    trim (l ++ (t ++ r)) = trim t := by
  rw [trim, trimStart_append_blank hl]
  obtain ⟨l', hl', hb⟩ := exists_eq_append_trimStart t
  by_cases ht : trimStart t = []
  · -- nothing of `t` is left, so that `t ++ r` is blank as a whole
    rw [ht, List.append_nil] at hl'
    have htr : Blank (t ++ r) := by
      rw [hl']
      exact hb.append hr
    have h₁ : trimStart (t ++ r) = [] := List.dropWhile_eq_nil_iff.2 htr
    rw [trim, h₁, ht]
  · have h₁ : trimStart (t ++ r) = trimStart t ++ r := by
      obtain ⟨c, u, hcu⟩ := List.exists_cons_of_ne_nil ht
      have hc : isBlank c = false := head?_trimStart (t := t) (by rw [hcu]; rfl)
      rw [hl', List.append_assoc, trimStart_append_blank hb, trimStart_append_blank hb, hcu]
      rw [List.cons_append, trimStart, List.dropWhile_cons_of_neg (by simp [hc]), trimStart,
        List.dropWhile_cons_of_neg (by simp [hc]), List.cons_append]
    rw [h₁, trimEnd_append_blank hr, trim]

/-- Trimming only the start of a text before trimming it makes no difference. -/
theorem trim_blank_append {l t : Text} (hl : Blank l) : trim (l ++ t) = trim t := by
  rw [trim, trimStart_append_blank hl, trim]

theorem trimEnd_append {t u : Text} (ht : ∀ c, t.getLast? = some c → isBlank c = false) :
    trimEnd (t ++ u) = t ++ trimEnd u := by
  obtain ⟨r, hr, hb⟩ := exists_eq_trimEnd_append u
  have hself : trimEnd (t ++ trimEnd u) = t ++ trimEnd u := by
    apply trimEnd_eq_self
    intro c hc
    rw [List.getLast?_append] at hc
    cases hl : (trimEnd u).getLast? with
    | none =>
      rw [hl] at hc
      exact ht c hc
    | some d =>
      rw [hl] at hc
      obtain rfl := Option.some.inj hc
      exact getLast?_trimEnd hl
  calc trimEnd (t ++ u) = trimEnd ((t ++ trimEnd u) ++ r) := by rw [List.append_assoc, ← hr]
    _ = trimEnd (t ++ trimEnd u) := trimEnd_append_blank hb
    _ = t ++ trimEnd u := hself

theorem trim_append {t u : Text} (ht : Trimmed t) (hne : t ≠ []) :
    trim (t ++ u) = t ++ trimEnd u := by
  have hstart : trimStart (t ++ u) = t ++ u := by
    apply trimStart_eq_self
    intro c hc
    obtain ⟨d, v, rfl⟩ := List.exists_cons_of_ne_nil hne
    exact ht.1 c hc
  rw [trim, hstart, trimEnd_append ht.2]

theorem trimEnd_ne_nil {r : Text} (hr : ¬Blank r) : trimEnd r ≠ [] := by
  obtain ⟨b, he, hb⟩ := exists_eq_trimEnd_append r
  intro h
  rw [h, List.nil_append] at he
  exact hr (he ▸ hb)

theorem trimEnd_append_of_not_blank {l r : Text} (hr : ¬Blank r) :
    trimEnd (l ++ r) = l ++ trimEnd r := by
  obtain ⟨b, he, hb⟩ := exists_eq_trimEnd_append r
  have hne := trimEnd_ne_nil hr
  have hlast : ∀ c, (l ++ trimEnd r).getLast? = some c → isBlank c = false := by
    intro c hc
    rw [List.getLast?_append, List.getLast?_eq_some_getLast hne] at hc
    obtain rfl := Option.some.inj hc
    exact getLast?_trimEnd (List.getLast?_eq_some_getLast hne)
  calc trimEnd (l ++ r) = trimEnd ((l ++ trimEnd r) ++ b) := by rw [List.append_assoc, ← he]
    _ = trimEnd (l ++ trimEnd r) := trimEnd_append_blank hb
    _ = l ++ trimEnd r := trimEnd_eq_self hlast

theorem trimStart_append_of_not_blank {l r : Text} (hl : ¬Blank l) :
    trimStart (l ++ r) = trimStart l ++ r := by
  obtain ⟨b, he, hb⟩ := exists_eq_append_trimStart l
  have hne : trimStart l ≠ [] := by
    intro h
    rw [h, List.append_nil] at he
    exact hl (he ▸ hb)
  have hhead : ∀ c, (trimStart l ++ r).head? = some c → isBlank c = false := by
    intro c hc
    obtain ⟨d, u, hd⟩ := List.exists_cons_of_ne_nil hne
    rw [hd] at hc
    exact head?_trimStart (t := l) (by rw [hd]; exact hc)
  calc trimStart (l ++ r) = trimStart (b ++ (trimStart l ++ r)) := by rw [← List.append_assoc, ← he]
    _ = trimStart (trimStart l ++ r) := trimStart_append_blank hb
    _ = trimStart l ++ r := trimStart_eq_self hhead

theorem trim_trimEnd (t : Text) : trim (trimEnd t) = trim t := by
  obtain ⟨r, hr, hb⟩ := exists_eq_trimEnd_append t
  have h := trim_append_blank (t := trimEnd t) blank_nil hb
  rw [List.nil_append, ← hr] at h
  exact h.symm

/-- It does not matter which end is trimmed first. -/
theorem trim_eq_trimStart_trimEnd (t : Text) : trim t = trimStart (trimEnd t) := by
  obtain ⟨l, hl, _⟩ := exists_eq_append_trimStart (trimEnd t)
  rw [← trim_trimEnd]
  apply trimEnd_eq_self
  intro c hc
  apply getLast?_trimEnd (t := t)
  rw [hl, List.getLast?_append, hc]
  rfl

theorem trimEnd_isPrefix (t : Text) : trimEnd t <+: t := by
  obtain ⟨r, hr, _⟩ := exists_eq_trimEnd_append t
  exact ⟨r, hr.symm⟩

theorem mem_trim {c : Char} {t : Text} (hc : c ∈ t) (hb : isBlank c = false) : c ∈ trim t := by
  obtain ⟨l, r, he, hl, hr⟩ := exists_eq_append_trim t
  rw [he] at hc
  rcases List.mem_append.1 hc with hc | hc
  · rw [hl c hc] at hb
    cases hb
  · rcases List.mem_append.1 hc with hc | hc
    · exact hc
    · rw [hr c hc] at hb
      cases hb

/-! ### The ends of a text put together -/

theorem trimmed_cons_append {c d : Char} {t : Text} (hc : isBlank c = false)
    (hd : isBlank d = false) : Trimmed (c :: (t ++ [d])) := by
  constructor
  · intro e he
    obtain rfl := Option.some.inj he
    exact hc
  · intro e he
    rw [← List.cons_append, List.getLast?_append] at he
    obtain rfl := Option.some.inj he
    exact hd

theorem Trimmed.append {t u : Text} (ht : Trimmed t) (hu : Trimmed u) : Trimmed (t ++ u) := by
  constructor
  · intro c hc
    cases t with
    | nil => exact hu.1 c hc
    | cons d t => exact ht.1 c hc
  · intro c hc
    rw [List.getLast?_append] at hc
    cases hl : u.getLast? with
    | none =>
      rw [hl] at hc
      exact ht.2 c hc
    | some d =>
      rw [hl] at hc
      obtain rfl := Option.some.inj hc
      exact hu.2 d hl

theorem Trimmed.of_forall {t : Text} (h : ∀ c ∈ t, isBlank c = false) : Trimmed t :=
  ⟨fun c hc => h c (List.mem_of_head? hc), fun c hc => h c (List.mem_of_getLast? hc)⟩

/-- Whatever stands between two trimmed texts. -/
theorem Trimmed.around {t u w : Text} (ht : Trimmed t) (hw : Trimmed w) (hne : t ≠ [])
    (hne' : w ≠ []) : Trimmed (t ++ (u ++ w)) := by
  constructor
  · intro c hc
    obtain ⟨d, v, rfl⟩ := List.exists_cons_of_ne_nil hne
    exact ht.1 c hc
  · intro c hc
    rw [← List.append_assoc, List.getLast?_append] at hc
    have hl := List.getLast?_eq_some_getLast hne'
    rw [hl] at hc
    obtain rfl := Option.some.inj hc
    exact hw.2 _ hl

theorem blank_blank : Blank [' '] := by
  intro c hc
  obtain rfl := List.mem_singleton.1 hc
  decide

end UnionTyping.Text
