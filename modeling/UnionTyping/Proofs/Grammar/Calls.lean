/-
  UnionTyping/Proofs/Grammar/Calls.lean
  =====================================
  **Bounded reading** — the parser of expressions calls itself, and so does the
  reader of types.  A call that is made while another one is running gets fewer
  bytes than the running one has left after trimming, so that the calls come to an
  end on every text, however malformed; and each level of the nesting is paid for
  with a byte of the text, so that there are no more levels than bytes.

  That a reading makes a call shows from outside: with another answer to that call
  alone it comes out differently (`Call.Makes`).
-/
import UnionTyping.Proofs.Grammar.PartReaders
import UnionTyping.Proofs.Scan.Slices
import Mathlib.Logic.Relation

namespace UnionTyping

open Text ParseM

/-! ### Calls -/

/-- A call of the parser of expressions: a text and the state in which it is read. -/
structure Call where
  text : Text
  state : ParseState

namespace Call

/-- The expression that is read. -/
def body (c : Call) : Text := stripParens c.text

/-- The depth at which the forms of the expression are tried; there are none for an
    empty one. -/
def level (c : Call) : Nat := if c.body.isEmpty then c.state.depth else c.state.depth + 1

/-- Reading `c` makes the call `c'`: another parser of the inner expressions, which
    answers otherwise to `c'` and to nothing else, gives another run. -/
def Makes (c c' : Call) : Prop :=
  ∃ sub : Parser Node, (∀ u s, Call.mk u s ≠ c' → sub u s = expression u s)
    ∧ expressionWith sub c.text c.state ≠ expression c.text c.state

/-- The call `c'` is made while `c` is running. -/
def Inside (c' c : Call) : Prop := Relation.TransGen Makes c c'

end Call

/-- Reading the type `t` makes a call with the text `u`. -/
def MakesType (t u : Text) : Prop :=
  ∃ sub : Reader SourceType, (∀ v, v ≠ u → sub v = parseType v) ∧ typeWith sub t ≠ parseType t

/-- A call with the text `u` is made while the type `t` is being read. -/
def InsideType (u t : Text) : Prop := Relation.TransGen MakesType t u

/-! ### One call -/

section

variable {t : Text} {s : ParseState}

/-- Whatever the parser of the inner expressions does with texts that are not shorter,
    or at another depth, the run is the same. -/
theorem expressionWith_of_shorter {sub : Parser Node}
    (h : ∀ u s', utf8Length u < utf8Length (stripParens t) → s'.depth = s.depth + 1 →
      sub u s' = expression u s') :
    expressionWith sub t s = expression t s := by
  have hsub : ∀ u, Part u (stripParens t) →
      AgreesAt (s.depth + 1) t (expression u) (sub u) := by
    intro u hu s' hs'
    have hwithin := hu.trans_isInfix (stripParens_isInfix t)
    obtain ⟨_, hdepth, hlocates⟩ :=
      (agreesAt_expression (s.depth + 1) u).mono hwithin.isInfix s' hs'
    exact ⟨(h u s' hu.utf8Length_lt hs').symm, hdepth, hlocates⟩
  have hagrees := agreesAt_expressionWith hsub (stripParens_isInfix t) s rfl
  rw [← hagrees.1, ← expression_eq]

theorem typeWith_of_shorter {sub : Reader SourceType}
    (h : ∀ u, utf8Length u < utf8Length (trim t) → sub u = parseType u) :
    typeWith sub t = parseType t := by
  have hsub : ∀ u, Part u (trim t) → AgreesIn t (parseType u) (sub u) := by
    intro u hu
    have hwithin := hu.trans_isInfix (trim_isInfix t)
    rw [h u hu.utf8Length_lt]
    exact (agreesIn_parseType u).mono hwithin.isInfix
  rw [← (agreesIn_typeWith hsub (trim_isInfix t)).1, ← parseType_eq]

end

theorem Call.Makes.shorter {c c' : Call} (h : c.Makes c') :
    utf8Length c'.text < utf8Length c.body ∧ c'.state.depth = c.state.depth + 1 := by
  obtain ⟨sub, hsub, hne⟩ := h
  by_contra hno
  apply hne
  apply expressionWith_of_shorter
  intro u s hu hs
  apply hsub
  rintro rfl
  exact hno ⟨hu, hs⟩

theorem MakesType.shorter {t u : Text} (h : MakesType t u) :
    utf8Length u < utf8Length (trim t) := by
  obtain ⟨sub, hsub, hne⟩ := h
  by_contra hno
  apply hne
  apply typeWith_of_shorter
  intro v hv
  apply hsub
  rintro rfl
  exact hno hv

theorem Call.length_body_le (c : Call) : utf8Length c.body ≤ utf8Length c.text :=
  utf8Length_le_of_isInfix (stripParens_isInfix c.text)

/-- A form that begins by reading a piece makes the call for it: whatever a run comes
    to, it comes to something else with one of two errors there. -/
theorem Call.makes_of_first {c : Call} {u : Text} (form : Text) (k : Node → ParseM Node)
    (hne : c.body ≠ [])
    (h : ∀ sub : Parser Node, (∀ v, Decides (sub v)) →
      Parser.choice (forms sub) c.body = (sub u >>= k).mapError (.inForm form)) :
    c.Makes ⟨u, c.state.enter⟩ := by
  classical
  let other (e : TypeError) : Parser Node := fun v s =>
    if Call.mk v s = ⟨u, c.state.enter⟩ then fail (.type e) s else expression v s
  have hdecides (e : TypeError) : ∀ v, Decides (other e v) := by
    intro v s hs
    simp only [other] at hs
    split at hs
    · cases hs
    · exact decides_expression v s hs
  have hrun (e : TypeError) :
      (expressionWith (other e) c.text c.state).result = .error (.type e) := by
    have hfirst : other e u c.state.enter = fail (.type e) c.state.enter := if_pos rfl
    have hempty : (stripParens c.text).isEmpty = false := by simpa [Call.body] using hne
    have hchoice := h (other e) (hdecides e)
    rw [Call.body] at hchoice
    simp only [expressionWith, hempty, hchoice, Bool.false_eq_true, if_false, bind_apply, orReject,
      mapError, nested, hfirst, fail]
    rfl
  by_contra hno
  have hsame (e : TypeError) : expressionWith (other e) c.text c.state
      = expression c.text c.state := by
    by_contra hdiff
    exact hno ⟨other e, fun v s hvs => if_neg hvs, hdiff⟩
  have h₁ := hrun (.unboundVariable [])
  have h₂ := hrun (.unknownType [])
  rw [hsame] at h₁ h₂
  rw [h₁] at h₂
  cases h₂

/-! ### All calls of a run -/

/-- A level more costs a byte at least. -/
theorem Call.Makes.depth_add_le {c c' : Call} (h : c.Makes c') :
    c'.state.depth + utf8Length c'.body ≤ c.state.depth + utf8Length c.body := by
  have hshorter := h.shorter
  have hbody := c'.length_body_le
  omega

theorem Call.Inside.shorter {c c' : Call} (h : c'.Inside c) :
    utf8Length c'.text < utf8Length c.body := by
  induction h with
  | single h => exact h.shorter.1
  | @tail d c' _ h ih =>
    have hshorter := h.shorter.1
    have hbody := d.length_body_le
    omega

theorem InsideType.shorter {t u : Text} (h : InsideType u t) :
    utf8Length u < utf8Length (trim t) := by
  induction h with
  | single h => exact h.shorter
  | @tail v u _ h ih =>
    have hshorter := h.shorter
    have htrim := utf8Length_le_of_isInfix (trim_isInfix v)
    omega

/-- The level is within the depth at the beginning and the bytes left there. -/
theorem Call.level_le {c c' : Call} (h : Relation.ReflTransGen Call.Makes c c') :
    c'.level ≤ c.state.depth + utf8Length c.body := by
  have hsum : c'.state.depth + utf8Length c'.body ≤ c.state.depth + utf8Length c.body := by
    induction h with
    | refl => exact Nat.le_refl _
    | tail _ h ih => exact Nat.le_trans h.depth_add_le ih
  unfold Call.level
  split
  · omega
  · next hne =>
    have hpos : 0 < c'.body.length := List.length_pos_iff.2 (by simpa using hne)
    have hbytes := length_le_utf8Length c'.body
    omega

theorem wellFounded_makes : WellFounded fun c' c : Call => c.Makes c' := by
  refine Subrelation.wf ?_ (measure fun c : Call => utf8Length c.text).wf
  intro c' c h
  exact Nat.lt_of_lt_of_le h.shorter.1 c.length_body_le

theorem wellFounded_makesType : WellFounded fun u t : Text => MakesType t u := by
  refine Subrelation.wf ?_ (measure utf8Length).wf
  intro u t h
  exact Nat.lt_of_lt_of_le h.shorter (utf8Length_le_of_isInfix (trim_isInfix t))

/-- **Reading is bounded** on every text.  A call of the parser of expressions inside
    a running one gets fewer bytes than the body of the running one, a call of the
    reader of types inside a running one fewer than its trimmed text; the recursion
    is not guarded, and ends.  From depth zero on, no form is tried deeper than the
    text has bytes.  And all slices lie on boundaries between characters. -/
theorem reading_is_bounded (t : Text) :
    (∀ s, (∀ c : Call, c.Inside ⟨t, s⟩ → utf8Length c.text < utf8Length (stripParens t))
        ∧ ∀ sub : Parser Node, (∀ u s', utf8Length u < utf8Length (stripParens t) →
          s'.depth = s.depth + 1 → sub u s' = expression u s') →
          expressionWith sub t s = expression t s)
      ∧ ((∀ u, InsideType u t → utf8Length u < utf8Length (trim t))
        ∧ ∀ sub : Reader SourceType, (∀ u, utf8Length u < utf8Length (trim t) →
          sub u = parseType u) → typeWith sub t = parseType t)
      ∧ (expression t = expressionWith expression t
        ∧ ∀ s, Acc (fun c' c : Call => c.Makes c') ⟨t, s⟩)
      ∧ (parseType t = typeWith parseType t ∧ Acc (fun u v : Text => MakesType v u) t)
      ∧ (∀ env c, Relation.ReflTransGen Call.Makes ⟨t, { env }⟩ c → c.level ≤ utf8Length t)
      ∧ SlicesOnBoundaries t := by
  refine ⟨fun s => ⟨fun c h => h.shorter, fun sub h => expressionWith_of_shorter h⟩,
    ⟨fun u h => h.shorter, fun sub h => typeWith_of_shorter h⟩,
    ⟨expression_eq t, fun s => wellFounded_makes.apply _⟩,
    ⟨parseType_eq t, wellFounded_makesType.apply t⟩, fun env c h => ?_, slicesOnBoundaries t⟩
  have hlevel := Call.level_le h
  have hbody := Call.length_body_le ⟨t, { env }⟩
  simp only at hlevel hbody
  omega

/-- A string of two bytes in a list of one statement, that a parenthesized return gives
    back: the third level of sixteen. -/
theorem reading_is_bounded_return :
    let outer : Call := ⟨"( return [\"é\"])".toList, ⟨.initial, 0⟩⟩
    let inner : Call := ⟨"\"é\"".toList, ⟨.initial, 2⟩⟩
    inner.Inside outer ∧ utf8Length inner.text < utf8Length (stripParens outer.text)
      ∧ inner.level = 3 ∧ inner.level ≤ utf8Length outer.text
      ∧ utf8Length outer.text = 16
      ∧ slice? outer.text 1 15 = some " return [\"é\"]".toList := by
  intro outer inner
  let middle : Call := ⟨"[\"é\"]".toList, ⟨.initial, 1⟩⟩
  have hbody : outer.body = "return [\"é\"]".toList := by decide +kernel
  have hmiddle : middle.body = "[\"é\"]".toList := by decide +kernel
  have houter : outer.Makes middle := by
    refine Call.makes_of_first "return".toList (fun v => pure (.ret (some v)))
      (by rw [hbody]; decide) fun sub hsub => ?_
    rw [hbody, choice_forms hsub]
    rfl
  have hinner : middle.Makes inner := by
    refine Call.makes_of_first "simple lambda".toList (fun body => do
      let type ← typing fun env => typeOf env body
      return .lambda
        { generics := [], params := [], result := type, explicit := false,
          ownScope := false, isPure := false, variadic := false } [body])
      (by rw [hmiddle]; decide) fun sub hsub => ?_
    rw [hmiddle, choice_forms hsub]
    rfl
  have hinside : inner.Inside outer := (Relation.TransGen.single houter).tail hinner
  obtain ⟨hcalls, _, _, _, hlevels, hslices⟩ := reading_is_bounded outer.text
  have hlength : utf8Length outer.text = 16 := by decide
  have hslice := hslices.inside .round (by decide) (by decide) (by decide)
  rw [hlength] at hslice
  exact ⟨hinside, (hcalls outer.state).1 inner hinside, by decide +kernel,
    hlevels .initial inner hinside.to_reflTransGen, hlength, hslice⟩

end UnionTyping
