/-
  UnionTyping/Proofs/Scan/Balance.lean
  ====================================
  **Balanced texts** — a text is balanced if scanning it never takes a depth
  below zero and ends at the top level.  What a scan does inside a balanced text
  does not depend on where the text stands (`scan_eq_shift`): it only adds the
  depths that are there already.  The one exception is an angle bracket right
  after a `~` or `=`, which is an arrow tip; `Nesting.Fits` excludes it.

  Balanced texts are closed under concatenation and bracketing, and so are the
  texts that avoid some characters at the top level (`Avoids`).
-/
import UnionTyping.Scan.Cut
import UnionTyping.Text.Quoted

namespace UnionTyping

/-! ### Moving a scan to another place -/

namespace Nesting

/-- The same place inside a text that is `d` deep. -/
def shift (s : Nesting) (d : Depths) : Nesting := { s with depths := s.depths.add d.get }

@[simp] theorem depth_shift (s : Nesting) (d : Depths) (b : Bracket) :
    (s.shift d).depth b = s.depth b + d.get b := by
  simp [depth, shift]

@[simp] theorem inString_shift (s : Nesting) (d : Depths) : (s.shift d).inString = s.inString := rfl

theorem inString_advance (s : Nesting) (c : Char) :
    (s.advance c).inString = if s.inString then s.escaped || c != '"' else c == '"' := rfl

theorem advance_shift (s : Nesting) (d : Depths) (c : Char) :
    (s.shift d).advance c = (s.advance c).shift d := by
  have h : (s.shift d).depths.add ((s.shift d).weight c)
      = (s.depths.add (s.weight c)).add d.get := by
    apply Depths.ext_get
    intro b
    simp [shift, weight, isTip]
    omega
  simp only [advance, h]
  rfl

theorem shift_zero {s : Nesting} {d : Depths} (h : ∀ b, d.get b = 0) : s.shift d = s := by
  have hd : s.depths.add d.get = s.depths := Depths.ext_get fun b => by simp [h b]
  simp only [shift, hd]

/-- No arrow tip begins `t` here. -/
def Fits (s : Nesting) (t : Text) : Prop := ∀ c, t.head? = some c → s.isTip c = false

theorem fits_start (t : Text) : start.Fits t := by
  intro c _
  simp [isTip, start]

theorem fits_cons {s : Nesting} {c : Char} {t : Text} (h : s.isTip c = false) :
    s.Fits (c :: t) := by
  intro d hd
  rwa [← Option.some.inj hd]

theorem fits_of_head {s : Nesting} {t : Text}
    (h : ∀ c, t.head? = some c → c ≠ '<' ∧ c ≠ '>') : s.Fits t := by
  intro c hc
  have hne := h c hc
  simp [isTip, hne.1, hne.2]

theorem fits_of_previous {s : Nesting} {t : Text}
    (h : s.previous ≠ some '~' ∧ s.previous ≠ some '=') : s.Fits t := by
  intro c _
  simp [isTip, h.1, h.2]

/-- Outside strings a character does what it does at the beginning of a text. -/
theorem advance_eq_shift {s : Nesting} {c : Char} (hs : s.inString = false)
    (hc : s.isTip c = false) : s.advance c = (start.advance c).shift s.depths := by
  have h₀ : start.isTip c = false := by simp [isTip, start]
  have h : s.depths.add (s.weight c) = (start.depths.add (start.weight c)).add s.depths.get := by
    apply Depths.ext_get
    intro b
    have hz : start.depths.get b = 0 := depth_start b
    have hstart : start.inString = false := rfl
    simp only [Depths.get_add, weight, hs, hc, h₀, hz, hstart]
    omega
  simp only [advance, shift, h, hs]
  rfl

end Nesting

theorem scan_shift (s : Nesting) (d : Depths) (t : Text) :
    scan (s.shift d) t = (scan s t).shift d := by
  induction t generalizing s with
  | nil => rfl
  | cons c t ih => rw [scan_cons, scan_cons, Nesting.advance_shift, ih]

/-- A text does the same wherever it stands outside strings. -/
theorem scan_eq_shift {s : Nesting} {t : Text} (hs : s.inString = false) (hf : s.Fits t)
    (ht : t ≠ []) : scan s t = (scan .start t).shift s.depths := by
  cases t with
  | nil => exact absurd rfl ht
  | cons c t =>
    rw [scan_cons, scan_cons, Nesting.advance_eq_shift hs (hf c rfl), scan_shift]

theorem depth_scan {s : Nesting} {t : Text} (hs : s.inString = false) (hf : s.Fits t)
    (b : Bracket) : (scan s t).depth b = s.depth b + (scan .start t).depth b := by
  by_cases ht : t = []
  · rw [ht, scan_nil, scan_nil, Nesting.depth_start, Int.add_zero]
  · rw [scan_eq_shift hs hf ht, Nesting.depth_shift]
    exact Int.add_comm _ _

theorem inString_scan {s : Nesting} {t : Text} (hs : s.inString = false) (hf : s.Fits t) :
    (scan s t).inString = (scan .start t).inString := by
  by_cases ht : t = []
  · subst ht
    exact hs
  · rw [scan_eq_shift hs hf ht, Nesting.inString_shift]

theorem previous_scan {s : Nesting} {t : Text} (ht : t ≠ []) :
    (scan s t).previous = t.getLast? := by
  induction t generalizing s with
  | nil => exact absurd rfl ht
  | cons c t ih =>
    cases t with
    | nil => rfl
    | cons d t =>
      rw [scan_cons, ih (by simp), List.getLast?_cons_cons]

/-- A scan has just passed the last character of its text. -/
theorem previous_scan_start (t : Text) : (scan .start t).previous = t.getLast? := by
  by_cases ht : t = []
  · subst ht
    rfl
  · exact previous_scan ht

/-! ### Balanced texts -/

namespace Text

structure Balanced (t : Text) : Prop where
  nonneg : ∀ u, u <+: t → ∀ b, 0 ≤ (scan .start u).depth b
  atTop : (scan .start t).atTop = true

theorem balanced_nil : Balanced [] := by
  constructor
  · intro u hu b
    rw [List.prefix_nil.1 hu]
    cases b <;> decide
  · decide

namespace Balanced

variable {t u : Text} {s : Nesting}

theorem inString_start (h : Balanced t) : (scan .start t).inString = false :=
  (Nesting.atTop_iff.1 h.atTop).1

theorem depth_start (h : Balanced t) (b : Bracket) : (scan .start t).depth b = 0 :=
  (Nesting.atTop_iff.1 h.atTop).2 b

/-- A balanced text leads back to the depth it begins at. -/
theorem depth (h : Balanced t) (hs : s.inString = false) (hf : s.Fits t) (b : Bracket) :
    (scan s t).depth b = s.depth b := by
  rw [depth_scan hs hf, h.depth_start b, Int.add_zero]

theorem inString (h : Balanced t) (hs : s.inString = false) (hf : s.Fits t) :
    (scan s t).inString = false := by
  rw [inString_scan hs hf, h.inString_start]

/-- Inside a balanced text no depth is less than at its beginning. -/
theorem le_depth (h : Balanced t) (hs : s.inString = false) (hf : s.Fits t) (hu : u <+: t)
    (b : Bracket) : s.depth b ≤ (scan s u).depth b := by
  have hfu : s.Fits u := by
    intro c hc
    obtain ⟨w, rfl⟩ := hu
    exact hf c (by rw [List.head?_append, hc]; rfl)
  have h₀ := h.nonneg u hu b
  rw [depth_scan hs hfu]
  omega

/-- A balanced text leads from the top level back to it. -/
theorem atTop_scan (h : Balanced t) (hs : s.atTop = true) (hf : s.Fits t) :
    (scan s t).atTop = true := by
  obtain ⟨hstring, hzero⟩ := Nesting.atTop_iff.1 hs
  exact Nesting.atTop_iff.2
    ⟨h.inString hstring hf, fun b => (h.depth hstring hf b).trans (hzero b)⟩

/-- After a balanced text a scan goes on as from the beginning. -/
theorem scan_after (h : Balanced t) (hu : u ≠ []) (hf : (scan .start t).Fits u) :
    scan .start (t ++ u) = scan .start u := by
  rw [scan_append, scan_eq_shift h.inString_start hf hu]
  exact Nesting.shift_zero h.depth_start

theorem append (ht : Balanced t) (hu : Balanced u) (hf : (scan .start t).Fits u) :
    Balanced (t ++ u) := by
  constructor
  · intro w hw b
    obtain ⟨x, hx⟩ := hw
    rcases List.append_eq_append_iff.1 hx with ⟨y, hy, _⟩ | ⟨y, rfl, hy⟩
    · exact ht.nonneg w ⟨y, hy.symm⟩ b
    · have h₁ := hu.le_depth ht.inString_start hf ⟨x, hy.symm⟩ b
      rw [scan_append]
      rw [ht.depth_start b] at h₁
      exact h₁
  · rw [scan_append]
    exact hu.atTop_scan ht.atTop hf

end Balanced

/-! ### Brackets -/

theorem weight_opening (b b' : Bracket) : b'.weight b.opening = if b' = b then 1 else 0 := by
  cases b <;> cases b' <;> decide

theorem weight_closing (b b' : Bracket) : b'.weight b.closing = if b' = b then -1 else 0 := by
  cases b <;> cases b' <;> decide

/-- The nesting just after an opening bracket at the beginning of a text. -/
def opened (b : Bracket) : Nesting := Nesting.start.advance b.opening

theorem inString_opened (b : Bracket) : (opened b).inString = false := by cases b <;> decide

theorem depth_opened (b b' : Bracket) : (opened b).depth b' = if b' = b then 1 else 0 := by
  cases b <;> cases b' <;> decide

/-- The inside of a group does not end with the stem of an arrow, if that would
    take the closing bracket for a tip. -/
def ClosesAfter (b : Bracket) (t : Text) : Prop :=
  b = .angle → t.getLast? ≠ some '~' ∧ t.getLast? ≠ some '='

theorem closesAfter_of_ne {b : Bracket} {t : Text} (h : b ≠ .angle) : ClosesAfter b t :=
  fun hb => absurd hb h

theorem isTip_closing {b : Bracket} {t : Text} {s : Nesting} (h : ClosesAfter b t)
    (hs : s.previous ≠ some '~' ∧ s.previous ≠ some '=') :
    (scan s t).isTip b.closing = false := by
  by_cases hb : b = .angle
  · subst hb
    have hp : (scan s t).previous ≠ some '~' ∧ (scan s t).previous ≠ some '=' := by
      by_cases ht : t = []
      · subst ht
        exact hs
      · rw [previous_scan ht]
        exact h rfl
    simp [Nesting.isTip, hp.1, hp.2]
  · cases b <;> first | exact absurd rfl hb | simp [Nesting.isTip, Bracket.closing]

theorem previous_opened (b : Bracket) :
    (opened b).previous ≠ some '~' ∧ (opened b).previous ≠ some '=' := by
  cases b <;> decide

theorem fits_opened (b : Bracket) (t : Text) : (opened b).Fits t :=
  Nesting.fits_of_previous (previous_opened b)

theorem Balanced.weight_closing {b : Bracket} {t : Text} (h : Balanced t) (hc : ClosesAfter b t)
    (b' : Bracket) :
    (scan (opened b) t).weight b.closing b' = if b' = b then -1 else 0 := by
  have hs := h.inString (inString_opened b) (fits_opened b t)
  simp only [Nesting.weight, hs, isTip_closing hc (previous_opened b), Text.weight_closing]
  rfl

theorem Balanced.group {b : Bracket} {t : Text} (h : Balanced t) (hc : ClosesAfter b t) :
    Balanced (b.opening :: (t ++ [b.closing])) := by
  have hd (b' : Bracket) : (scan (opened b) (t ++ [b.closing])).depth b' = 0 := by
    rw [scan_append, scan_cons, scan_nil, Nesting.depth_advance, h.weight_closing hc,
      h.depth (inString_opened b) (fits_opened b t), depth_opened]
    split <;> rfl
  constructor
  · intro u hu b'
    rcases List.prefix_cons_iff.1 hu with rfl | ⟨v, rfl, hv⟩
    · cases b' <;> decide
    · rw [scan_cons]
      rcases List.prefix_concat_iff.1 hv with rfl | hv
      · exact Int.le_of_eq (hd b').symm
      · have h₁ := h.le_depth (inString_opened b) (fits_opened b t) hv b'
        have h₂ : 0 ≤ (opened b).depth b' := by
          rw [depth_opened]
          split <;> decide
        exact Int.le_trans h₂ h₁
  · apply Nesting.atTop_iff.2
    refine ⟨?_, hd⟩
    have hs := h.inString (inString_opened b) (fits_opened b t)
    rw [scan_cons]
    show (scan (opened b) (t ++ [b.closing])).inString = false
    rw [scan_append, scan_cons, scan_nil]
    rw [Nesting.inString_advance, hs]
    cases b <;> rfl

/-- Inside a group the depth of its bracket is not zero. -/
theorem Balanced.not_atTop_inside {b : Bracket} {t u : Text} (h : Balanced t) (hu : u <+: t) :
    (scan (opened b) u).atTop = false := by
  have h₁ := h.le_depth (inString_opened b) (fits_opened b t) hu b
  rw [depth_opened, if_pos rfl] at h₁
  cases ht : (scan (opened b) u).atTop with
  | false => rfl
  | true =>
    have h₂ := (Nesting.atTop_iff.1 ht).2 b
    omega

/-! ### Quoted strings -/

/-- A plain character stays in a string. -/
theorem advance_plain {s : Nesting} {c : Char} (hs : s.inString = true) (hq : c ≠ '"')
    (hb : c ≠ '\\') : (s.advance c).inString = true ∧ (s.advance c).escaped = false := by
  simp [Nesting.advance, hs, hq, hb]

/-- A backslash stays in a string. -/
theorem inString_advance_backslash {s : Nesting} (hs : s.inString = true) :
    (s.advance '\\').inString = true := by
  simp [Nesting.inString_advance, hs]

/-- Any character behind a backslash stays in a string. -/
theorem advance_backslash {s : Nesting} (hs : s.inString = true) (he : s.escaped = false)
    (c : Char) : ((s.advance '\\').advance c).inString = true
      ∧ ((s.advance '\\').advance c).escaped = false := by
  have hin := inString_advance_backslash hs
  have hescaped : (s.advance '\\').escaped = true := by simp [Nesting.advance, hs, he]
  rw [Nesting.advance]
  simp [hin, hescaped]

/-- A quote with no backslash before it ends a string. -/
theorem inString_advance_quote {s : Nesting} (hs : s.inString = true) (he : s.escaped = false) :
    (s.advance '"').inString = false := by
  simp [Nesting.inString_advance, hs, he]

/-- Inside a string the depths stay, and it does not end before its closing quote. -/
theorem Chunks.scan {raw : Text} (h : Chunks raw) {s : Nesting} (hs : s.inString = true)
    (he : s.escaped = false) :
    ((scan s raw).escaped = false) ∧ ∀ u, u <+: raw →
      (scan s u).inString = true ∧ ∀ b, (scan s u).depth b = s.depth b := by
  have hd {s : Nesting} (hs : s.inString = true) (c : Char) (b : Bracket) :
      (s.advance c).depth b = s.depth b := by
    simp [Nesting.weight, hs]
  induction h generalizing s with
  | nil =>
    refine ⟨he, ?_⟩
    intro u hu
    rw [List.prefix_nil.1 hu]
    exact ⟨hs, fun b => rfl⟩
  | @plain c t hq hb _ ih =>
    obtain ⟨hs₁, he₁⟩ := advance_plain hs hq hb
    obtain ⟨h₁, h₂⟩ := ih hs₁ he₁
    refine ⟨h₁, ?_⟩
    intro u hu
    rcases List.prefix_cons_iff.1 hu with rfl | ⟨v, rfl, hv⟩
    · exact ⟨hs, fun b => rfl⟩
    · obtain ⟨h₃, h₄⟩ := h₂ v hv
      exact ⟨h₃, fun b => (h₄ b).trans (hd hs c b)⟩
  | @escaped c t _ ih =>
    have hs₁ := inString_advance_backslash hs
    obtain ⟨hs₂, he₂⟩ := advance_backslash hs he c
    obtain ⟨h₁, h₂⟩ := ih hs₂ he₂
    refine ⟨h₁, ?_⟩
    intro u hu
    rcases List.prefix_cons_iff.1 hu with rfl | ⟨v, rfl, hv⟩
    · exact ⟨hs, fun b => rfl⟩
    · rcases List.prefix_cons_iff.1 hv with rfl | ⟨w, rfl, hw⟩
      · exact ⟨hs₁, hd hs '\\'⟩
      · obtain ⟨h₃, h₄⟩ := h₂ w hw
        exact ⟨h₃, fun b => ((h₄ b).trans (hd hs₁ c b)).trans (hd hs '\\' b)⟩

/-- The nesting just after an opening quote at the beginning of a text. -/
theorem depth_quote (b : Bracket) : (Nesting.start.advance '"').depth b = 0 := by
  cases b <;> decide

theorem balanced_quoted {raw : Text} (h : Chunks raw) : Balanced ('"' :: (raw ++ ['"'])) := by
  obtain ⟨he, hi⟩ := h.scan (s := Nesting.start.advance '"') (by decide) (by decide)
  have hs := (hi raw (List.prefix_refl raw)).1
  have hd (b : Bracket) : (scan .start ('"' :: (raw ++ ['"']))).depth b = 0 := by
    rw [scan_cons, scan_append, scan_cons, scan_nil, Nesting.depth_advance,
      (hi raw (List.prefix_refl raw)).2, depth_quote]
    simp [Nesting.weight, hs]
  constructor
  · intro u hu b
    rcases List.prefix_cons_iff.1 hu with rfl | ⟨v, rfl, hv⟩
    · cases b <;> decide
    · rcases List.prefix_concat_iff.1 hv with rfl | hv
      · exact Int.le_of_eq (hd b).symm
      · have hz : (scan .start ('"' :: v)).depth b = 0 := by
          rw [scan_cons, (hi v hv).2, depth_quote]
        exact Int.le_of_eq hz.symm
  · apply Nesting.atTop_iff.2
    refine ⟨?_, hd⟩
    rw [scan_cons, scan_append, scan_cons, scan_nil]
    exact inString_advance_quote hs he

/-! ### Characters without a meaning of their own -/

/-- The characters that a scan takes notice of outside strings. -/
def marks : List Char := ['"', '(', ')', '\x7b', '\x7d', '[', ']', '<', '>']

def isPlain (c : Char) : Bool := !marks.contains c

theorem isPlain_of_forall {p : Char → Bool} (hp : ∀ d ∈ marks, p d = false) {c : Char}
    (hc : p c = true) : isPlain c = true := by
  cases h : isPlain c with
  | true => rfl
  | false =>
    have hm : c ∈ marks := by simpa [isPlain] using h
    rw [hp c hm] at hc
    exact absurd hc (by decide)

theorem weight_of_isPlain {c : Char} (h : isPlain c = true) (b : Bracket) : b.weight c = 0 := by
  simp only [isPlain, marks, List.contains_eq_mem, List.mem_cons, List.not_mem_nil, or_false,
    Bool.not_eq_eq_eq_not, Bool.not_true, decide_eq_false_iff_not, not_or] at h
  obtain ⟨_, h₁, h₂, h₃, h₄, h₅, h₆, h₇, h₈⟩ := h
  cases b <;> simp [Bracket.weight, Bracket.opening, Bracket.closing, *]

theorem ne_quote_of_isPlain {c : Char} (h : isPlain c = true) : c ≠ '"' := by
  rintro rfl
  exact absurd h (by decide)

theorem ne_angle_of_isPlain {c : Char} (h : isPlain c = true) : c ≠ '<' ∧ c ≠ '>' := by
  constructor
  · rintro rfl
    exact absurd h (by decide)
  · rintro rfl
    exact absurd h (by decide)

theorem scan_of_plain {t : Text} (h : ∀ c ∈ t, isPlain c = true) {s : Nesting}
    (hs : s.inString = false) :
    (scan s t).inString = false ∧ ∀ b, (scan s t).depth b = s.depth b := by
  induction t generalizing s with
  | nil => exact ⟨hs, fun b => rfl⟩
  | cons c t ih =>
    have hc := h c (List.mem_cons_self ..)
    have hs₁ : (s.advance c).inString = false := by
      simp [Nesting.advance, hs, ne_quote_of_isPlain hc]
    obtain ⟨h₁, h₂⟩ := ih (fun d hd => h d (List.mem_cons_of_mem _ hd)) hs₁
    refine ⟨h₁, ?_⟩
    intro b
    rw [scan_cons, h₂ b, Nesting.depth_advance]
    simp [Nesting.weight, weight_of_isPlain hc]

theorem balanced_of_plain {t : Text} (h : ∀ c ∈ t, isPlain c = true) : Balanced t := by
  constructor
  · intro u hu b
    have h₁ := (scan_of_plain (fun c hc => h c (hu.subset hc)) (s := .start) rfl).2 b
    exact Int.le_of_eq (h₁.trans (Nesting.depth_start b)).symm
  · obtain ⟨h₁, h₂⟩ := scan_of_plain h (s := .start) rfl
    exact Nesting.atTop_iff.2 ⟨h₁, fun b => (h₂ b).trans (Nesting.depth_start b)⟩

theorem balanced_singleton {c : Char} (h : isPlain c = true) : Balanced [c] :=
  balanced_of_plain fun d hd => by rwa [List.mem_singleton.1 hd]

theorem atTop_advance_of_isPlain {s : Nesting} {c : Char} (hs : s.atTop = true)
    (h : isPlain c = true) : (s.advance c).atTop = true := by
  obtain ⟨h₁, h₂⟩ := Nesting.atTop_iff.1 hs
  obtain ⟨h₃, h₄⟩ := scan_of_plain (t := [c]) (s := s) (by simpa using h) h₁
  exact Nesting.atTop_iff.2 ⟨h₃, fun b => (h₄ b).trans (h₂ b)⟩

/-- Only a mark leads back to the top level. -/
theorem atTop_of_scan_of_plain {t : Text} (h : ∀ c ∈ t, isPlain c = true) {s : Nesting}
    (hs : (scan s t).atTop = true) : s.atTop = true := by
  induction t generalizing s with
  | nil => exact hs
  | cons c t ih =>
    have hc := h c (List.mem_cons_self ..)
    have hnext : (s.advance c).atTop = true := ih (fun d hd => h d (List.mem_cons_of_mem _ hd)) hs
    obtain ⟨h₁, h₂⟩ := Nesting.atTop_iff.1 hnext
    have hstring : s.inString = false := by
      rw [Nesting.inString_advance] at h₁
      cases hin : s.inString with
      | false => rfl
      | true => simp [hin, ne_quote_of_isPlain hc] at h₁
    obtain ⟨_, h₃⟩ := scan_of_plain (t := [c]) (s := s) (by simpa using hc) hstring
    exact Nesting.atTop_iff.2 ⟨hstring, fun b => (h₃ b).symm.trans (h₂ b)⟩

/-! ### Characters avoided at the top level -/

/-- No character with `p` stands at the top level. -/
def Avoids (p : Char → Bool) (t : Text) : Prop :=
  ∀ l c r, t = l ++ c :: r → (scan .start l).atTop = true → p c = false

variable {p : Char → Bool}

theorem avoids_of_forall {t : Text} (h : ∀ c ∈ t, p c = false) : Avoids p t := by
  rintro l c r rfl _
  exact h c (by simp)

theorem Avoids.append {t u : Text} (ht : Balanced t) (h₁ : Avoids p t) (h₂ : Avoids p u)
    (hf : (scan .start t).Fits u) : Avoids p (t ++ u) := by
  intro l c r he htop
  rcases List.append_eq_append_iff.1 he with ⟨y, rfl, hy⟩ | ⟨y, hy, hc⟩
  · by_cases hne : y = []
    · subst hne
      exact h₂ [] c r hy (by decide)
    · have hfy : (scan .start t).Fits y := by
        intro d hd
        exact hf d (by rw [hy, List.head?_append, hd]; rfl)
      rw [ht.scan_after hne hfy] at htop
      exact h₂ y c r hy htop
  · cases y with
    | nil => exact h₂ [] c r hc.symm (by decide)
    | cons d y =>
      obtain ⟨rfl, _⟩ := List.cons.inj hc
      exact h₁ l c y hy htop

theorem Avoids.of_append {t u : Text} (ht : Balanced t) (h : Avoids p (t ++ u))
    (hf : (scan .start t).Fits u) : Avoids p t ∧ Avoids p u := by
  constructor
  · intro l c r he htop
    exact h l c (r ++ u) (by rw [he]; simp) htop
  · intro l c r he htop
    refine h (t ++ l) c r (by rw [he]; simp) ?_
    cases l with
    | nil =>
      rw [List.append_nil]
      exact ht.atTop
    | cons d l =>
      rw [ht.scan_after (List.cons_ne_nil d l) fun e hd => hf e (by rw [he]; exact hd)]
      exact htop

/-- What stands before a character of `t` and one more is a beginning of `t`. -/
theorem prefix_of_concat_eq {t l r : Text} {c d : Char} (h : t ++ [d] = l ++ c :: r) :
    l <+: t := by
  rcases List.append_eq_append_iff.1 h with ⟨y, rfl, hy⟩ | ⟨y, hy, _⟩
  · cases y with
    | nil => simp
    | cons e y => simp at hy
  · exact ⟨y, hy.symm⟩

theorem avoids_group {b : Bracket} {t : Text} (h : Balanced t) (hb : p b.opening = false) :
    Avoids p (b.opening :: (t ++ [b.closing])) := by
  intro l c r he htop
  cases l with
  | nil =>
    obtain ⟨rfl, _⟩ := List.cons.inj he
    exact hb
  | cons d l =>
    obtain ⟨rfl, he'⟩ := List.cons.inj he
    have hl : l <+: t := prefix_of_concat_eq he'
    have hin := h.not_atTop_inside (b := b) hl
    rw [scan_cons] at htop
    exact absurd (htop.symm.trans hin) (by decide)

theorem avoids_quoted {raw : Text} (h : Chunks raw) (hq : p '"' = false) :
    Avoids p ('"' :: (raw ++ ['"'])) := by
  obtain ⟨_, hi⟩ := h.scan (s := Nesting.start.advance '"') (by decide) (by decide)
  intro l c r he htop
  cases l with
  | nil =>
    obtain ⟨rfl, _⟩ := List.cons.inj he
    exact hq
  | cons d l =>
    obtain ⟨rfl, he'⟩ := List.cons.inj he
    have hl : l <+: raw := prefix_of_concat_eq he'
    rw [scan_cons] at htop
    have hs := (Nesting.atTop_iff.1 htop).1
    exact absurd (hs.symm.trans (hi l hl).1) (by decide)

end Text

end UnionTyping
