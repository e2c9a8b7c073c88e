/-
  UnionTyping/Proofs/Grammar/Strings.lean
  =======================================
  **Where a string ends** — three parts of the program have an opinion on it: the
  printer, which puts a backslash before some characters; the pattern of a string,
  with the decoder of its content; and the scan, which has only a flag for the
  character behind a backslash.

  They agree.  Nothing in a printed string is at the top level, whatever stands around
  it, and it reads back as its value (`printed_string_survives`).  For every text, the
  pattern (`stringPattern`) accepts it exactly if a scan first leaves its string at the
  last character (`quoted?_iff_exitsAtEnd`).
-/
import UnionTyping.Proofs.Grammar.RoundTrip
import UnionTyping.Proofs.Scan.Slices
import Mathlib.Computability.Language

namespace UnionTyping

open Text Nesting
open scoped Computability

/-! ### Strings among other texts -/

/-- In a text, what is written between two quotes is out of sight. -/
structure HidesContent (before raw behind : Text) : Prop where
  /-- The closing quote leads back to the top level. -/
  closing : ∃ step ∈ steps .start 0 (before ++ '"' :: (raw ++ '"' :: behind)),
    step.index = utf8Length (before ++ '"' :: raw) ∧ step.char = '"'
      ∧ step.before.atTop = false ∧ step.after.atTop = true
  /-- No character between the quotes is at the top level. -/
  inside : ∀ step ∈ steps .start 0 (before ++ '"' :: (raw ++ '"' :: behind)),
    utf8Length before < step.index → step.index < utf8Length (before ++ '"' :: raw) →
      step.before.atTop = false ∧ step.after.atTop = false

section

variable {before raw behind u : Text}

/-- A step between the quotes is one of the content. -/
theorem exists_of_mem_steps_inside {step : Step}
    (hstep : step ∈ steps .start 0 (before ++ '"' :: (raw ++ '"' :: behind)))
    (hlower : utf8Length before < step.index)
    (hupper : step.index < utf8Length (before ++ '"' :: raw)) :
    ∃ u v, raw = u ++ step.char :: v ∧ step.before = scan .start (before ++ '"' :: u) := by
  obtain ⟨l, r, ht, hindex, hscan⟩ := mem_steps_iff.1 hstep
  rw [Nat.zero_add] at hindex
  rw [hindex] at hlower hupper
  have hl : l <+: before ++ '"' :: (raw ++ '"' :: behind) := ⟨_, ht.symm⟩
  have hquote : utf8Length (before ++ ['"']) = utf8Length before + 1 :=
    utf8Length_append before ['"']
  obtain ⟨u, rfl⟩ : before ++ ['"'] <+: l :=
    prefix_of_utf8Length_le ⟨raw ++ '"' :: behind, by simp⟩ hl (by omega)
  obtain ⟨v, hv⟩ : before ++ ['"'] ++ u <+: before ++ '"' :: raw :=
    prefix_of_utf8Length_le hl ⟨'"' :: behind, by simp⟩ hupper.le
  have hraw : raw = u ++ v := by simpa using hv.symm
  cases v with
  | nil =>
    rw [hraw] at hupper
    simp at hupper
  | cons c v =>
    have hrest : before ++ ['"'] ++ u ++ c :: (v ++ '"' :: behind)
        = before ++ ['"'] ++ u ++ step.char :: r := by
      rw [← ht, hraw]
      simp
    obtain ⟨rfl, _⟩ := List.cons.inj (List.append_cancel_left hrest)
    exact ⟨u, v, hraw, by rw [hscan, List.append_assoc]; rfl⟩

/-- No beginning of the content leads out of the string. -/
theorem not_atTop_of_chunks (h : Chunks raw) (hbefore : (scan .start before).atTop = true)
    (hu : u <+: raw) : (scan .start (before ++ '"' :: u)).atTop = false := by
  have hout : (scan .start before).inString = false := (atTop_iff.1 hbefore).1
  have hin : ((scan .start before).advance '"').inString = true := by
    rw [inString_advance, hout]
    rfl
  have hescaped : ((scan .start before).advance '"').escaped = false := by simp [advance]
  have hstring := ((h.scan hin hescaped).2 u hu).1
  rw [scan_append, scan_cons]
  simp [atTop, atTopOf, hstring]

theorem atTop_of_chunks (h : Chunks raw) (hbefore : (scan .start before).atTop = true) :
    (scan .start (before ++ '"' :: (raw ++ ['"']))).atTop = true := by
  have hsealed := sealed_quoted h
  rw [scan_append]
  exact hsealed.toBalanced.atTop_scan hbefore (hsealed.fits _)

theorem hidesContent_of_chunks (h : Chunks raw) (hbefore : (scan .start before).atTop = true) :
    HidesContent before raw behind where
  closing := by
    refine ⟨⟨utf8Length (before ++ '"' :: raw), scan .start (before ++ '"' :: raw), '"'⟩,
      mem_steps_iff.2 ⟨before ++ '"' :: raw, behind, by simp, by simp, rfl⟩, rfl, rfl,
      not_atTop_of_chunks h hbefore List.prefix_rfl, ?_⟩
    have hafter := atTop_of_chunks h hbefore
    rwa [← List.cons_append, ← List.append_assoc, scan_append] at hafter
  inside := by
    intro step hstep hlower hupper
    obtain ⟨u, v, hraw, hscan⟩ := exists_of_mem_steps_inside hstep hlower hupper
    have hu : u <+: raw := ⟨_, hraw.symm⟩
    have hnext : u ++ [step.char] <+: raw := ⟨v, by rw [hraw, List.append_assoc]; rfl⟩
    have hafter := not_atTop_of_chunks h hbefore hnext
    rw [← List.cons_append, ← List.append_assoc, scan_append, ← hscan] at hafter
    rw [hscan]
    exact ⟨not_atTop_of_chunks h hbefore hu, hafter⟩

end

/-- A printed string reads back as its value, and what is written of it can be taken for
    nothing else in any text. -/
theorem printed_string_survives (v : Text) (env : TypeEnv) :
    ((read ('"' :: (escape v ++ ['"'])) env).result = .ok (.string v)
        ∧ (read ('"' :: (escape v ++ ['"'])) env).env = env)
      ∧ ∀ before behind, (scan .start before).atTop = true →
        HidesContent before (escape v) behind := by
  refine ⟨read_of_reads (reads_string v), ?_⟩
  intro before behind hbefore
  exact hidesContent_of_chunks (chunks_escape v) hbefore

/-- A value with quotes, backslashes and brackets that do not match. -/
theorem printed_string_survives_unmatched :
    (scan .start "f(1) =".toList).atTop = true
      ∧ HidesContent "f(1) =".toList "\\\")]\\\\\\n\x7b\\\"".toList ">]".toList := by
  have hbefore : (scan .start "f(1) =".toList).atTop = true := by decide
  have hraw : escape "\")]\\\n\x7b\"".toList = "\\\")]\\\\\\n\x7b\\\"".toList := by decide
  refine ⟨hbefore, ?_⟩
  rw [← hraw]
  exact (printed_string_survives _ .initial).2 _ _ hbefore

/-! ### The pattern of a string -/

/-- What stands between the quotes is made of: a character that is neither a quote nor a
    backslash, or a backslash and any character. -/
def contentPattern : Language Char :=
  {u | (∃ c, c ≠ '"' ∧ c ≠ '\\' ∧ u = [c]) ∨ ∃ c, u = ['\\', c]}

/-- A quote, content, and a quote. -/
def stringPattern : Language Char := {['"']} * contentPattern∗ * {['"']}

theorem chunks_iff_mem_kstar {t : Text} : Chunks t ↔ t ∈ contentPattern∗ := by
  constructor
  · intro h
    have hcons {u v : Text} (hu : u ∈ contentPattern) (hv : v ∈ contentPattern∗) :
        u ++ v ∈ contentPattern∗ := by
      obtain ⟨us, rfl, hus⟩ := Language.mem_kstar.1 hv
      exact Language.mem_kstar.2 ⟨u :: us, rfl, List.forall_mem_cons.2 ⟨hu, hus⟩⟩
    induction h with
    | nil => exact Language.nil_mem_kstar _
    | plain hq hb _ ih => exact hcons (Or.inl ⟨_, hq, hb, rfl⟩) ih
    | escaped _ ih => exact hcons (Or.inr ⟨_, rfl⟩) ih
  · intro h
    obtain ⟨us, rfl, hus⟩ := Language.mem_kstar.1 h
    clear h
    induction us with
    | nil => exact .nil
    | cons u us ih =>
      have hall : ∀ v ∈ us, v ∈ contentPattern := fun v hv => hus v (List.mem_cons_of_mem _ hv)
      have hrest := ih hall
      rcases hus u (List.mem_cons_self ..) with ⟨c, hq, hb, rfl⟩ | ⟨c, rfl⟩
      · exact .plain hq hb hrest
      · exact .escaped hrest

theorem mem_stringPattern_iff {t : Text} :
    t ∈ stringPattern ↔ ∃ raw, t = '"' :: (raw ++ ['"']) ∧ Chunks raw := by
  constructor
  · rintro ⟨_, ⟨_, rfl, raw, hraw, rfl⟩, _, rfl, rfl⟩
    exact ⟨raw, rfl, chunks_iff_mem_kstar.2 hraw⟩
  · rintro ⟨raw, rfl, hraw⟩
    have hquote : ['"'] ∈ ({['"']} : Language Char) := rfl
    have hcontent := chunks_iff_mem_kstar.1 hraw
    exact Language.append_mem_mul (Language.append_mem_mul hquote hcontent) hquote

theorem isSome_quoted?_iff {t : Text} : (quoted? t).isSome = true ↔ t ∈ stringPattern := by
  rw [Option.isSome_iff_exists, mem_stringPattern_iff]
  exact exists_congr fun _ => quoted?_eq_some_iff

/-! ### The first step out of a string -/

/-- After the step a scan is outside strings. -/
def Step.endsOutside (step : Step) : Bool := !step.after.inString

/-- The first step of a scan that ends outside strings is the last step of all. -/
def ExitsAtEnd (s : Nesting) (i : Nat) (t : Text) : Prop :=
  ∃ step, (steps s i t).find? Step.endsOutside = some step
    ∧ (steps s i t).getLast? = some step

section

variable {s : Nesting} {i : Nat} {c : Char} {t : Text}

theorem not_exitsAtEnd_nil : ¬ExitsAtEnd s i [] := by
  rintro ⟨step, hfind, _⟩
  cases hfind

theorem exitsAtEnd_cons_of_inString (h : (s.advance c).inString = true) :
    ExitsAtEnd s i (c :: t) ↔ ExitsAtEnd (s.advance c) (i + c.utf8Size) t := by
  have hstep : ¬(Step.endsOutside ⟨i, s, c⟩ = true) := by simp [Step.endsOutside, Step.after, h]
  rw [ExitsAtEnd, steps, List.find?_cons_of_neg hstep]
  cases t with
  | nil => simp [ExitsAtEnd, steps]
  | cons d t => rw [steps, List.getLast?_cons_cons, ← steps, ExitsAtEnd]

theorem exitsAtEnd_cons_of_not_inString (h : (s.advance c).inString = false) :
    ExitsAtEnd s i (c :: t) ↔ t = [] := by
  have hstep : Step.endsOutside ⟨i, s, c⟩ = true := by simp [Step.endsOutside, Step.after, h]
  rw [ExitsAtEnd, steps, List.find?_cons_of_pos hstep]
  cases t with
  | nil => exact ⟨fun _ => rfl, fun _ => ⟨_, rfl, rfl⟩⟩
  | cons d t =>
    refine ⟨?_, fun hnil => absurd hnil (List.cons_ne_nil d t)⟩
    rintro ⟨step, hfind, hlast⟩
    obtain rfl := Option.some.inj hfind
    rw [steps, List.getLast?_cons_cons, ← steps] at hlast
    -- the last step has a greater index than the one found
    obtain ⟨l, _, _, hindex, _⟩ := mem_steps_iff.1 (List.mem_of_getLast? hlast)
    have hsize := c.utf8Size_pos
    simp only at hindex
    omega

/-- Behind the opening quote the pattern and the scan go on alike, chunk by chunk. -/
theorem isSome_untilQuote?_iff (hs : s.inString = true) (he : s.escaped = false) :
    (untilQuote? t).isSome = true ↔ ExitsAtEnd s i t := by
  fun_induction untilQuote? t generalizing s i with
  | case1 => simp [not_exitsAtEnd_nil]
  | case2 => simp [exitsAtEnd_cons_of_not_inString (inString_advance_quote hs he)]
  | case3 c t ih =>
    obtain ⟨hs₂, he₂⟩ := advance_backslash hs he c
    rw [Option.isSome_map, exitsAtEnd_cons_of_inString (inString_advance_backslash hs),
      exitsAtEnd_cons_of_inString hs₂]
    exact ih hs₂ he₂
  | case4 c t hone hpair hc =>
    rcases hc with rfl | rfl
    · have hne : t ≠ [] := hone rfl
      simp [exitsAtEnd_cons_of_not_inString (inString_advance_quote hs he), hne]
    · -- a backslash with nothing behind it
      obtain rfl : t = [] := by
        cases t with
        | nil => rfl
        | cons d t => exact absurd rfl (hpair d t rfl)
      rw [exitsAtEnd_cons_of_inString (inString_advance_backslash hs)]
      simp [not_exitsAtEnd_nil]
  | case5 c t _ _ hc ih =>
    obtain ⟨hs₁, he₁⟩ := advance_plain hs (fun h => hc (Or.inl h)) (fun h => hc (Or.inr h))
    rw [Option.isSome_map, exitsAtEnd_cons_of_inString hs₁]
    exact ih hs₁ he₁

end

/-- The pattern of a string and the scan agree on where a string ends. -/
theorem quoted?_iff_exitsAtEnd (t : Text) :
    ((quoted? t).isSome = true ↔ t ∈ stringPattern)
      ∧ (t ∈ stringPattern ↔ t.head? = some '"' ∧ ExitsAtEnd .start 0 t) := by
  refine ⟨isSome_quoted?_iff, ?_⟩
  rw [← isSome_quoted?_iff]
  cases t with
  | nil => simp [quoted?]
  | cons c t =>
    by_cases hc : c = '"'
    · subst hc
      have hopen : (Nesting.start.advance '"').inString = true := by decide
      have hescaped : (Nesting.start.advance '"').escaped = false := by decide
      rw [exitsAtEnd_cons_of_inString hopen, ← isSome_untilQuote?_iff hopen hescaped]
      simp [quoted?]
    · simp [quoted?_of_head hc, hc]

/-- A backslash takes a quote with it, unless it is taken itself. -/
example : quoted? "\"\\\"".toList = none ∧ quoted? "\"\\\\\"".toList = some "\\\\".toList := by
  decide

end UnionTyping
