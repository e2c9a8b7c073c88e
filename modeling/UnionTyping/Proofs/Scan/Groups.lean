/-
  UnionTyping/Proofs/Scan/Groups.lean
  ===================================
  **Groups** — a balanced text in brackets is one group, wherever the group
  stands: at the beginning of a text (`group?`), as the whole of it (`unwrap?`)
  or at its end (`lastGroup?`).  A text with something behind its first group is
  not one group.  Redundant parentheses come off without a trace.
-/
import UnionTyping.Grammar.Shape
import UnionTyping.Proofs.Scan.Cuts

namespace UnionTyping

namespace Text

open Nesting

variable {b : Bracket}

/-! ### A group at the beginning -/

theorem group?_append {t rest : Text} (h : Balanced t) (hc : ClosesAfter b t) :
    group? b (b.opening :: (t ++ b.closing :: rest)) = some (t, rest) := by
  have hcut : cutFirst (fun s d _ => s.closes d b) (opened b) (t ++ b.closing :: rest)
      = some (t, rest) := by
    apply cutFirst_append_cons
    · have h₁ := h.depth (inString_opened b) (fits_opened b t) b
      have h₂ := h.weight_closing hc b
      rw [depth_opened, if_pos rfl] at h₁
      rw [if_pos rfl] at h₂
      simp [closes, h₁, h₂]
    · -- a bracket that closed the group earlier would take the depth to zero inside `t`
      rintro l c r rfl
      have h₁ := h.le_depth (inString_opened b) (fits_opened b _) (u := l ++ [c])
        ⟨r, by simp⟩ b
      rw [depth_opened, if_pos rfl, scan_append, scan_cons, scan_nil, depth_advance] at h₁
      simp only [closes, Bool.and_eq_false_imp, beq_iff_eq, beq_eq_false_iff_ne]
      intro hd hw
      omega
  exact (if_pos rfl).trans hcut

theorem weight_eq_neg_one {c : Char} (h : b.weight c = -1) : c = b.closing := by
  unfold Bracket.weight at h
  split at h
  · cases h
  · split at h
    · assumption
    · cases h

theorem weight_eq_one {c : Char} (h : b.weight c = 1) : c = b.opening := by
  unfold Bracket.weight at h
  split at h
  · assumption
  · split at h <;> cases h

/-- A character that counts is no arrow tip and does not stand in a string. -/
theorem weight_of_ne_zero {s : Nesting} {c : Char} (h : s.weight c b ≠ 0) :
    s.inString = false ∧ s.isTip c = false ∧ s.weight c b = b.weight c := by
  unfold Nesting.weight at h ⊢
  split
  · next hs => exact absurd (if_pos hs) h
  · next hs =>
    simp only [Bool.or_eq_true, not_or, Bool.not_eq_true] at hs
    exact ⟨hs.1, hs.2, rfl⟩

theorem closesAfter_of_isTip {t : Text} (h : (scan (opened b) t).isTip b.closing = false) :
    ClosesAfter b t := by
  rintro rfl
  by_cases ht : t = []
  · subst ht
    decide
  · simpa [isTip, previous_scan ht, Bracket.closing] using h

/-- What closes a bracket stands outside strings and is no tip of an arrow. -/
theorem closes_iff {s : Nesting} : s.closes b.closing b = true
    ↔ s.depth b = 1 ∧ s.inString = false ∧ s.isTip b.closing = false := by
  simp only [closes, Bool.and_eq_true, beq_iff_eq]
  refine and_congr_right fun _ => ⟨fun hw => ?_, fun ⟨hs, htip⟩ => ?_⟩
  · obtain ⟨hs, htip, _⟩ := weight_of_ne_zero (b := b) (by rw [hw]; decide)
    exact ⟨hs, htip⟩
  · simp [Nesting.weight, hs, htip, Text.weight_closing]

/-- The first group of a text ends where its bracket is closed. -/
theorem closes_of_group? {t inner rest : Text} (h : group? b t = some (inner, rest)) :
    t = b.opening :: (inner ++ b.closing :: rest)
      ∧ (scan (opened b) inner).closes b.closing b = true := by
  cases t with
  | nil => cases h
  | cons c t =>
    rw [group?] at h
    split at h
    · next hc =>
      subst hc
      obtain ⟨d, rfl, hd⟩ := eq_of_cutFirst h
      have hw : (scan (opened b) inner).weight d b = -1 := by
        simp only [closes, Bool.and_eq_true, beq_iff_eq] at hd
        exact hd.2
      obtain ⟨_, _, he⟩ := weight_of_ne_zero (by rw [hw]; decide)
      rw [hw] at he
      obtain rfl := weight_eq_neg_one he.symm
      exact ⟨rfl, hd⟩
    · cases h

theorem eq_of_group? {t inner rest : Text} (h : group? b t = some (inner, rest)) :
    t = b.opening :: (inner ++ b.closing :: rest) ∧ ClosesAfter b inner := by
  obtain ⟨ht, hcloses⟩ := closes_of_group? h
  exact ⟨ht, closesAfter_of_isTip (closes_iff.1 hcloses).2.2⟩

theorem group?_of_head {t : Text} (h : t.head? ≠ some b.opening) : group? b t = none := by
  cases t with
  | nil => rfl
  | cons c t =>
    rw [group?, if_neg]
    rintro rfl
    exact h rfl

/-! ### One group -/

theorem staysBalanced_iff {s : Nesting} {t : Text} :
    staysBalanced b s t = true ↔
      (∀ u, u <+: t → u ≠ [] → 0 ≤ (scan s u).depth b)
        ∧ (scan s t).inString = false ∧ (scan s t).depth b = 0 := by
  induction t generalizing s with
  | nil =>
    simp only [staysBalanced, Bool.and_eq_true, beq_iff_eq, scan_nil, Bool.not_eq_eq_eq_not,
      Bool.not_true]
    constructor
    · intro h
      refine ⟨?_, h⟩
      intro u hu hne
      exact absurd (List.prefix_nil.1 hu) hne
    · exact fun h => h.2
  | cons c t ih =>
    simp only [staysBalanced, Bool.and_eq_true, decide_eq_true_eq, ih, scan_cons]
    constructor
    · rintro ⟨hc, hu, he⟩
      refine ⟨?_, he⟩
      intro u hp _
      rcases List.prefix_cons_iff.1 hp with rfl | ⟨v, rfl, hv⟩
      · contradiction
      · rw [scan_cons]
        by_cases hv₀ : v = []
        · subst hv₀
          exact hc
        · exact hu v hv hv₀
    · rintro ⟨hu, he⟩
      refine ⟨hu [c] ⟨t, rfl⟩ (by simp), ?_, he⟩
      intro v hv _
      exact hu (c :: v) (by simpa using hv) (by simp)

theorem Balanced.isBalanced {t : Text} (h : Balanced t) (b : Bracket) : isBalanced b t = true :=
  staysBalanced_iff.2 ⟨fun u hu _ => h.nonneg u hu b, h.inString_start, h.depth_start b⟩

theorem unwrap?_of_isGroup {t : Text} (h : isGroup b (b.opening :: (t ++ [b.closing])) = true) :
    unwrap? b (b.opening :: (t ++ [b.closing])) = some t := by
  rw [unwrap?, if_pos h]
  simp [inside]

theorem isGroup_of_unwrap? {t inner : Text} (h : unwrap? b t = some inner) :
    isGroup b t = true := by
  unfold unwrap? at h
  split at h
  · assumption
  · cases h

theorem unwrap?_group {t : Text} (h : Balanced t) (hc : ClosesAfter b t) :
    unwrap? b (b.opening :: (t ++ [b.closing])) = some t := by
  apply unwrap?_of_isGroup
  simp [isGroup, (h.group hc).isBalanced b, h.isBalanced b]

theorem eq_of_unwrap? {t inner : Text} (h : unwrap? b t = some inner) :
    t = b.opening :: (inner ++ [b.closing]) := by
  unfold unwrap? at h
  split at h
  · next hg =>
    cases t with
    | nil => cases hg
    | cons c t =>
      simp only [isGroup, Bool.and_eq_true, beq_iff_eq] at hg
      obtain ⟨⟨⟨rfl, hlast⟩, _⟩, _⟩ := hg
      obtain ⟨u, rfl⟩ := List.getLast?_eq_some_iff.1 hlast
      have hu : u = inner := by simpa [inside] using h
      rw [hu]
  · cases h

theorem unwrap?_of_head {t : Text} (h : t.head? ≠ some b.opening) : unwrap? b t = none := by
  cases hu : unwrap? b t with
  | none => rfl
  | some inner =>
    rw [eq_of_unwrap? hu] at h
    exact absurd rfl h

theorem unwrap?_of_getLast {t : Text} (h : t.getLast? ≠ some b.closing) : unwrap? b t = none := by
  cases hu : unwrap? b t with
  | none => rfl
  | some inner =>
    rw [eq_of_unwrap? hu, ← List.cons_append, List.getLast?_append] at h
    exact absurd rfl h

/-- A text that goes on after a balanced beginning is not one group. -/
theorem unwrap?_append {t rest : Text} (h : Balanced t) (ht : t ≠ []) (hr : rest ≠ []) :
    unwrap? b (t ++ rest) = none := by
  obtain ⟨c, u, rfl⟩ := List.exists_cons_of_ne_nil ht
  rw [unwrap?, if_neg]
  intro hg
  simp only [List.cons_append, isGroup, Bool.and_eq_true, beq_iff_eq] at hg
  obtain ⟨⟨⟨rfl, _⟩, _⟩, hinside⟩ := hg
  -- without the opening bracket, `u` closes one bracket too many
  have hd : (scan .start u).depth b = -1 := by
    have h₁ : (scan (opened b) u).depth b = 0 := h.depth_start b
    rw [depth_scan (inString_opened b) (fits_opened b u), depth_opened, if_pos rfl] at h₁
    omega
  have hu : u ≠ [] := by
    rintro rfl
    exact absurd hd (by cases b <;> decide)
  have hprefix : u <+: (u ++ rest).dropLast := by
    rw [List.dropLast_append_of_ne_nil hr]
    exact List.prefix_append _ _
  have hnonneg := (staysBalanced_iff.1 hinside).1 u hprefix hu
  omega

/-- Behind an opening bracket the depth is one more than in the text alone. -/
theorem depth_scan_opened (t : Text) :
    (scan (opened b) t).depth b = 1 + (scan .start t).depth b := by
  rw [depth_scan (inString_opened b) (fits_opened b t), depth_opened, if_pos rfl]

/-- A text that is one group is the first group of every text that it begins. -/
theorem group?_of_unwrap? {t inner : Text} (h : unwrap? b t = some inner) (rest : Text) :
    group? b (t ++ rest) = some (inner, rest) := by
  have hg := isGroup_of_unwrap? h
  obtain rfl := eq_of_unwrap? h
  simp only [isGroup, List.dropLast_concat, Bool.and_eq_true] at hg
  obtain ⟨⟨_, hwhole⟩, hinside⟩ := hg
  obtain ⟨hnonneg, hstring, hzero⟩ := staysBalanced_iff.1 hinside
  have hcloses : (scan (opened b) inner).closes b.closing b = true := by
    have hend : (scan (opened b) (inner ++ [b.closing])).depth b = 0 :=
      (staysBalanced_iff.1 hwhole).2.2
    rw [scan_append, scan_cons, scan_nil, depth_advance, depth_scan_opened, hzero] at hend
    simp only [closes, depth_scan_opened, hzero, Bool.and_eq_true, beq_iff_eq]
    omega
  have hcut : cutFirst (fun s d _ => s.closes d b) (opened b) (inner ++ b.closing :: rest)
      = some (inner, rest) := by
    refine cutFirst_append_cons hcloses ?_
    rintro l c r rfl
    have hl := depth_scan_opened (b := b) (l ++ [c])
    have hnonneg := hnonneg (l ++ [c]) ⟨r, by simp⟩ (by simp)
    rw [scan_append, scan_cons, scan_nil, depth_advance] at hl
    simp only [closes, Bool.and_eq_false_imp, beq_iff_eq, beq_eq_false_iff_ne]
    intro hd hw
    omega
  rw [List.cons_append, List.append_assoc]
  exact (if_pos rfl).trans hcut

/-! ### A group at the end -/

/-- The last group begins at the last bracket that is opened from the top level, and
    the text ends with it. -/
theorem cut_of_lastGroup? {t before inner : Text} (h : lastGroup? b t = some (before, inner)) :
    cutLastOpening b t = some (before, inner ++ [b.closing])
      ∧ group? b (b.opening :: (inner ++ [b.closing])) = some (inner, []) := by
  simp only [lastGroup?, Option.bind_eq_bind, Option.bind_eq_some_iff, Prod.exists] at h
  obtain ⟨l, r, hcut, i, rest, hg, h⟩ := h
  split at h
  · next hr =>
    rw [List.isEmpty_iff] at hr
    subst hr
    obtain ⟨rfl, rfl⟩ := Prod.mk.inj (Option.some.inj h)
    obtain rfl : r = i ++ [b.closing] := (List.cons.inj (eq_of_group? hg).1).2
    exact ⟨hcut, hg⟩
  · cases h

theorem group?_of_lastGroup? {t before inner : Text} (h : lastGroup? b t = some (before, inner)) :
    group? b (b.opening :: (inner ++ [b.closing])) = some (inner, []) := (cut_of_lastGroup? h).2

/-- What stands before the last group ends at the top level and is no stem of an
    arrow whose tip the opening bracket would be. -/
theorem eq_of_lastGroup? {t before inner : Text} (h : lastGroup? b t = some (before, inner)) :
    t = before ++ b.opening :: (inner ++ [b.closing])
      ∧ (scan .start before).atTop = true ∧ (scan .start before).isTip b.opening = false
      ∧ ClosesAfter b inner := by
  obtain ⟨hcut, hg⟩ := cut_of_lastGroup? h
  obtain ⟨c, rfl, ho⟩ := eq_of_cutLast hcut
  simp only [opens, Bool.and_eq_true, beq_iff_eq] at ho
  obtain ⟨_, htip, hw⟩ := weight_of_ne_zero (by rw [ho.2]; decide)
  rw [ho.2] at hw
  obtain rfl := weight_eq_one hw.symm
  exact ⟨rfl, ho.1, htip, (eq_of_group? hg).2⟩

/-- Before the cut that closes a bracket it stays open. -/
theorem one_le_depth_of_cutFirst {s : Nesting} {t inner rest : Text} (hs : 1 ≤ s.depth b)
    (h : cutFirst (fun s d _ => s.closes d b) s t = some (inner, rest)) :
    ∀ u, u <+: inner → 1 ≤ (scan s u).depth b := by
  induction t generalizing s inner with
  | nil => cases h
  | cons c t ih =>
    intro u hu
    rw [cutFirst] at h
    split at h
    · obtain ⟨rfl, _⟩ := Prod.mk.inj (Option.some.inj h)
      rw [List.prefix_nil.1 hu]
      exact hs
    · next hc =>
      obtain ⟨⟨l, r⟩, hl, he⟩ := Option.map_eq_some_iff.1 h
      obtain ⟨rfl, rfl⟩ := Prod.mk.inj he
      rcases List.prefix_cons_iff.1 hu with rfl | ⟨v, rfl, hv⟩
      · exact hs
      · refine ih ?_ hl v hv
        have hw := (s.weight_bounds c b).1
        simp only [closes, Bool.and_eq_true, beq_iff_eq] at hc
        rw [depth_advance]
        omega

/-- Inside a group its bracket is not closed. -/
theorem one_le_depth_of_group? {t inner rest : Text} (h : group? b t = some (inner, rest)) :
    ∀ u, u <+: inner → 1 ≤ (scan (opened b) u).depth b := by
  cases t with
  | nil => cases h
  | cons c t =>
    rw [group?] at h
    split at h
    · next hc =>
      subst hc
      have hone : (opened b).depth b = 1 := by rw [depth_opened, if_pos rfl]
      exact one_le_depth_of_cutFirst (Int.le_of_eq hone.symm) h
    · cases h

/-- The first group of a text is one group on its own. -/
theorem isGroup_of_group? {t inner rest : Text} (h : group? b t = some (inner, rest)) :
    isGroup b (b.opening :: (inner ++ [b.closing])) = true := by
  obtain ⟨hdepth, hstring, htip⟩ := closes_iff.1 (closes_of_group? h).2
  have hone := one_le_depth_of_group? h
  have hend : (scan (opened b) (inner ++ [b.closing])).depth b = 0 := by
    rw [scan_append, scan_cons, scan_nil, depth_advance, hdepth]
    simp [Nesting.weight, hstring, htip, Text.weight_closing]
  have hwhole : isBalanced b (b.opening :: (inner ++ [b.closing])) = true := by
    refine staysBalanced_iff.2 ⟨?_, ?_, hend⟩
    · intro u hu hne
      rcases List.prefix_cons_iff.1 hu with rfl | ⟨v, rfl, hv⟩
      · contradiction
      · show 0 ≤ (scan (opened b) v).depth b
        rcases List.prefix_concat_iff.1 hv with rfl | hv
        · exact Int.le_of_eq hend.symm
        · exact Int.le_trans (by decide) (hone v hv)
    · show (scan (opened b) (inner ++ [b.closing])).inString = false
      rw [scan_append, scan_cons, scan_nil, inString_advance, hstring]
      cases b <;> rfl
  have hinside : isBalanced b inner = true := by
    refine staysBalanced_iff.2 ⟨?_, ?_, ?_⟩
    · intro u hu _
      have hu := hone u hu
      rw [depth_scan_opened] at hu
      omega
    · rwa [inString_scan (inString_opened b) (fits_opened b inner)] at hstring
    · rw [depth_scan_opened] at hdepth
      omega
  simp [isGroup, hwhole, hinside]

/-- A text is one group if its first group is the whole of it. -/
theorem group?_eq_some_nil_iff {t : Text} :
    group? b (b.opening :: (t ++ [b.closing])) = some (t, [])
      ↔ isGroup b (b.opening :: (t ++ [b.closing])) = true := by
  refine ⟨isGroup_of_group?, fun h => ?_⟩
  have hg := group?_of_unwrap? (unwrap?_of_isGroup h) []
  rwa [List.append_nil] at hg

/-- A group behind a text that ends at the top level is the last one. -/
theorem lastGroup?_of_group? {before inner : Text} (htop : (scan .start before).atTop = true)
    (htip : (scan .start before).isTip b.opening = false)
    (hg : group? b (b.opening :: (inner ++ [b.closing])) = some (inner, [])) :
    lastGroup? b (before ++ b.opening :: (inner ++ [b.closing])) = some (before, inner) := by
  have hopens : (scan .start before).opens b.opening b = true := by
    simp [opens, htop, Nesting.weight, (atTop_iff.1 htop).1, htip, weight_opening]
  have hcut : cutLastOpening b (before ++ b.opening :: (inner ++ [b.closing]))
      = some (before, inner ++ [b.closing]) := by
    apply cutLast_append_cons hopens
    rw [advance_of_atTop htop htip]
    apply cutLast_eq_none_iff.2
    intro l c r he
    -- nothing inside the group is at the top level
    have hdepth := one_le_depth_of_group? hg l (prefix_of_concat_eq he)
    have hinside : (scan (opened b) l).atTop = false := by
      cases hl : (scan (opened b) l).atTop with
      | false => rfl
      | true =>
        have hzero := (atTop_iff.1 hl).2 b
        omega
    show (scan (opened b) l).opens c b = false
    simp [opens, hinside]
  simp [lastGroup?, hcut, hg]

/-- The last group of a text is one group, and what stands before it ends at the top
    level. -/
theorem lastGroup?_eq_some_iff {t before inner : Text} :
    lastGroup? b t = some (before, inner) ↔ t = before ++ b.opening :: (inner ++ [b.closing])
      ∧ (scan .start before).atTop = true ∧ (scan .start before).isTip b.opening = false
      ∧ isGroup b (b.opening :: (inner ++ [b.closing])) = true := by
  constructor
  · intro h
    obtain ⟨ht, htop, htip, _⟩ := eq_of_lastGroup? h
    exact ⟨ht, htop, htip, isGroup_of_group? (group?_of_lastGroup? h)⟩
  · rintro ⟨rfl, htop, htip, hg⟩
    exact lastGroup?_of_group? htop htip (group?_eq_some_nil_iff.2 hg)

theorem lastGroup?_append {before inner : Text} (hb : Balanced before)
    (htip : (scan .start before).isTip b.opening = false) (hi : Balanced inner)
    (hc : ClosesAfter b inner) :
    lastGroup? b (before ++ b.opening :: (inner ++ [b.closing])) = some (before, inner) :=
  lastGroup?_of_group? hb.atTop htip (group?_append hi hc)

/-- The last group of a text does not begin inside a balanced beginning that it
    goes beyond. -/
theorem exists_of_lastGroup?_append {u v before inner : Text} (hu : Balanced u) (hv : v ≠ [])
    (h : lastGroup? b (u ++ v) = some (before, inner)) : ∃ w, w <+: v ∧ before = u ++ w := by
  obtain ⟨ht, htop, htip, _⟩ := eq_of_lastGroup? h
  rcases List.append_eq_append_iff.1 ht with ⟨w, hw, hr⟩ | ⟨w, hw, hr⟩
  · exact ⟨w, ⟨_, hr.symm⟩, hw⟩
  · cases w with
    | nil => exact ⟨[], List.nil_prefix, by simpa using hw.symm⟩
    | cons c r =>
      exfalso
      obtain ⟨rfl, htail⟩ := List.cons.inj hr
      have hprefix : r <+: inner := by
        obtain ⟨d, v', rfl⟩ := List.exists_cons_of_ne_nil hv
        exact prefix_of_concat_eq htail
      have h₁ := one_le_depth_of_group? (group?_of_lastGroup? h) r hprefix
      have h₂ : (scan (opened b) r).depth b = 0 := by
        have h₃ := hu.depth_start b
        rw [hw, scan_append, scan_cons, advance_of_atTop htop htip] at h₃
        exact h₃
      omega

theorem lastGroup?_of_getLast {t : Text} (h : t.getLast? ≠ some b.closing) :
    lastGroup? b t = none := by
  cases hg : lastGroup? b t with
  | none => rfl
  | some p =>
    obtain ⟨rfl, _⟩ := eq_of_lastGroup? hg
    rw [← List.cons_append, ← List.append_assoc, List.getLast?_append] at h
    exact absurd rfl h

/-- A call is taken apart at its last group, and what stands before that group once
    more if it ends with an angle bracket. -/
theorem callShape?_eq_some_iff {t : Text} {shape : CallShape} :
    callShape? t = some shape ↔ ∃ called,
      lastGroup? .round (trim t) = some (called, shape.arguments) ∧ called ≠ []
        ∧ ((shape.generics = [] ∧ shape.caller = trimEnd called
            ∧ (trimEnd called).getLast? ≠ some '>')
          ∨ ∃ caller, lastGroup? .angle (trimEnd called) = some (caller, shape.generics)
            ∧ caller ≠ [] ∧ shape.caller = trimEnd caller) := by
  have hangle (u : Text) : before? ['>'] u = none ↔ u.getLast? ≠ some '>' := by
    rw [Option.eq_none_iff_forall_ne_some, ne_eq, List.getLast?_eq_some_iff, not_exists]
    exact forall_congr' fun r => not_congr before?_eq_some_iff
  constructor
  · intro h
    simp only [callShape?, Option.bind_eq_bind, Option.bind_eq_some_iff, Prod.exists] at h
    obtain ⟨called, arguments, hlast, h⟩ := h
    split at h
    · cases h
    · next hne =>
      rw [List.isEmpty_iff] at hne
      split at h
      · next hb =>
        obtain rfl := Option.some.inj h
        exact ⟨called, hlast, hne, Or.inl ⟨rfl, rfl, (hangle _).1 hb⟩⟩
      · simp only [Option.bind_eq_some_iff, Prod.exists] at h
        obtain ⟨caller, generics, hangles, h⟩ := h
        split at h
        · cases h
        · next hne' =>
          rw [List.isEmpty_iff] at hne'
          obtain rfl := Option.some.inj h
          exact ⟨called, hlast, hne, Or.inr ⟨caller, hangles, hne', rfl⟩⟩
  · obtain ⟨c, arguments, generics⟩ := shape
    rintro ⟨called, hlast, hne, ⟨rfl, rfl, hb⟩ | ⟨caller, hangles, hne', rfl⟩⟩
    · simp [callShape?, hlast, hne, (hangle _).2 hb]
    · have hb : before? ['>'] (trimEnd called) ≠ none := by
        rw [ne_eq, hangle, not_not, (lastGroup?_eq_some_iff.1 hangles).1, ← List.cons_append,
          ← List.append_assoc, List.getLast?_concat]
        rfl
      obtain ⟨front, hfront⟩ := Option.ne_none_iff_exists'.1 hb
      simp [callShape?, hlast, hne, hfront, hangles, hne']

/-! ### The last occurrence of a character -/

theorem cutLastTop_eq_none_iff {c : Char} {t : Text} :
    cutLastTop c t = none ↔ Avoids (· == c) t := by
  rw [cutLastTop, cutLast_eq_none_iff]
  constructor
  · intro h l d r he htop
    have hd := h l d r he
    rwa [htop, Bool.and_true] at hd
  · intro h l d r he
    cases htop : (scan .start l).atTop with
    | false => simp
    | true => simpa using h l d r he htop

theorem cutLastTop_append_cons {c : Char} {l r : Text} (hc : isPlain c = true)
    (hstem : c ≠ '~' ∧ c ≠ '=') (hl : Balanced l) (hr : Avoids (· == c) r) :
    cutLastTop c (l ++ c :: r) = some (l, r) := by
  have hafter : ((scan .start l).advance c).atTop = true := atTop_advance_of_isPlain hl.atTop hc
  apply cutLast_append_cons
  · simp [hl.atTop]
  · apply cutLast_eq_none_iff.2
    intro m d r' he
    cases m with
    | nil =>
      have hd := hr [] d r' he (by decide)
      have hd' : (d == c) = false := hd
      simp [hd']
    | cons e m =>
      have hfit : ((scan .start l).advance c).Fits (e :: m) := by
        apply fits_of_previous
        simp [hstem.1, hstem.2]
      rw [scan_of_atTop hafter hfit (by simp)]
      cases htop : (scan .start (e :: m)).atTop with
      | false => simp
      | true => simpa using hr (e :: m) d r' he htop

/-! ### Redundant parentheses -/

theorem stripParens_of_none {t : Text} (h : unwrap? .round (trim t) = none) :
    stripParens t = trim t := by
  rw [stripParens]
  split
  · next u hu => rw [h] at hu; cases hu
  · rfl

theorem stripParens_of_some {t u : Text} (h : unwrap? .round (trim t) = some u) :
    stripParens t = stripParens u := by
  rw [stripParens]
  split
  · next v hv =>
    rw [h] at hv
    rw [Option.some.inj hv]
  · next hn => rw [h] at hn; cases hn

theorem stripParens_trim (t : Text) : stripParens (trim t) = stripParens t := by
  cases h : unwrap? .round (trim t) with
  | none => rw [stripParens_of_none (by rw [trim_trim, h]), stripParens_of_none h, trim_trim]
  | some u => rw [stripParens_of_some (by rw [trim_trim, h]), stripParens_of_some h]

theorem stripParens_eq_self {t : Text} (ht : Trimmed t) (h : unwrap? .round t = none) :
    stripParens t = t := by
  rw [stripParens_of_none (by rw [trim_eq_self ht, h]), trim_eq_self ht]

theorem stripParens_group {t : Text} (h : Balanced t) :
    stripParens ('(' :: (t ++ [')'])) = stripParens t := by
  apply stripParens_of_some
  rw [trim_eq_self (trimmed_cons_append (by decide) (by decide))]
  exact unwrap?_group (b := .round) h (closesAfter_of_ne (by decide))

theorem sealed_of_stripParens {t : Text} (h : Sealed (stripParens t)) : Sealed t := by
  fun_induction stripParens t with
  | case1 t u hu ih =>
    apply sealed_of_trim
    rw [eq_of_unwrap? hu]
    exact sealed_group (ih h).toBalanced (by decide)
  | case2 t hu => exact sealed_of_trim h

end Text

end UnionTyping
