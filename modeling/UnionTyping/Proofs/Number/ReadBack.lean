/-
  UnionTyping/Proofs/Number/ReadBack.lean
  =======================================
  **Numbers read back** — the text of a finite number has the shape of a number
  literal and names the same number, the sign of a zero included.  The digits of
  a number read back as its count of quanta (`ofDecimal_written`), whether they
  are the shortest ones or, as the last resort, the exact ones; the positional
  layout moves the point but not the value (`pointed?_positional`).
-/
import Mathlib.Data.List.TakeWhile
import UnionTyping.Number.Writing
import UnionTyping.Proofs.Text.Trim
import UnionTyping.Text.Name

namespace UnionTyping

open Text

namespace Double

/-! ### Digits -/

/-- A rounding does not look at the sign. -/
theorem ofRatio_sign {n d q : Nat} {h : Representable q}
    (hq : ofRatio false n d = finite false q h) (negative : Bool) :
    ofRatio negative n d = finite negative q h := by
  unfold ofRatio at hq ⊢
  split at hq
  · next hr =>
    rw [dif_pos hr]
    injection hq with _ he
    simp only [he]
  · cases hq

theorem ofDecimal_sign {n q : Nat} {e : Int} {h : Representable q}
    (hq : ofDecimal false n e = finite false q h) (negative : Bool) :
    ofDecimal negative n e = finite negative q h := by
  unfold ofDecimal at hq ⊢
  split at hq
  · next he =>
    rw [if_pos he]
    exact ofRatio_sign hq negative
  · next he =>
    rw [if_neg he]
    exact ofRatio_sign hq negative

theorem ofRatio_one (negative : Bool) {q : Nat} (h : Representable q) :
    ofRatio negative q 1 = finite negative q h := by
  have h₁ := ofRatio_quanta (m := q) (d := 1) negative (by decide) h
  rwa [Nat.mul_one] at h₁

theorem ofDecimal_exact {q : Nat} (h : Representable q) :
    ofDecimal false (exact q).digits (exact q).exponent = finite false q h := by
  have hmk := mul_splitTwos q
  revert hmk
  rcases hs : splitTwos q with ⟨m, k⟩
  intro hmk
  simp only at hmk
  simp only [exact, hs]
  split
  · next hk =>
    obtain ⟨j, hj⟩ : ∃ j, 1074 = k + j := ⟨1074 - k, by omega⟩
    have hjk : 1074 - k = j := by omega
    have hq : m * 5 ^ j * 2 ^ 1074 = q * 10 ^ j := by
      calc m * 5 ^ j * 2 ^ 1074 = m * 5 ^ j * (2 ^ k * 2 ^ j) := by rw [hj, Nat.pow_add]
        _ = m * 2 ^ k * (2 ^ j * 5 ^ j) := by ac_rfl
        _ = q * 10 ^ j := by rw [hmk, ← Nat.mul_pow]
    simp only [hjk]
    by_cases hz : j = 0
    · subst hz
      simp only [Nat.pow_zero, Nat.mul_one] at hq
      simp only [ofDecimal, Nat.pow_zero, Nat.mul_one]
      rw [if_pos (by omega)]
      simp only [Int.natCast_zero, Int.neg_zero, Int.toNat_zero, Nat.pow_zero, Nat.mul_one, hq]
      exact ofRatio_one false h
    · have hneg : ¬0 ≤ -(j : Int) := by omega
      simp only [ofDecimal]
      rw [if_neg hneg, Int.neg_neg, Int.toNat_natCast, hq]
      exact ofRatio_quanta false (Nat.pow_pos (by decide)) h
  · next hk =>
    have hq : m * 2 ^ (k - 1074) * 2 ^ 1074 = q := by
      rw [Nat.mul_assoc, ← Nat.pow_add, Nat.sub_add_cancel (by omega), hmk]
    simp only [ofDecimal]
    rw [if_pos (Int.le_refl 0), Int.toNat_zero, Nat.pow_zero, Nat.mul_one, hq]
    exact ofRatio_one false h

theorem ofDecimal_false (n : Nat) (e : Int) :
    ofDecimal false n e = infinite false ∨ ∃ q h, ofDecimal false n e = finite false q h := by
  have hr : ∀ n d, ofRatio false n d = infinite false ∨ ∃ q h, ofRatio false n d = finite false q h := by
    intro n d
    unfold ofRatio
    split
    · next h => exact Or.inr ⟨_, h, rfl⟩
    · exact Or.inl rfl
  unfold ofDecimal
  split
  · exact hr _ _
  · exact hr _ _

theorem eq_of_readsBack {q : Nat} {d : Decimal} (h : Representable q)
    (hd : readsBack q d = true) : ofDecimal false d.digits d.exponent = finite false q h := by
  unfold readsBack at hd
  rcases ofDecimal_false d.digits d.exponent with hi | ⟨n, hn, he⟩
  · rw [hi] at hd
    cases hd
  · rw [he] at hd ⊢
    have hnq : n = q := by simpa using hd
    subst hnq
    rfl

/-- Whatever the candidates are: the one that is found reads back, and so does
    the exact decimal. -/
theorem ofDecimal_chosen {q : Nat} (h : Representable q) (candidates : List Decimal) :
    ofDecimal false ((candidates.find? (readsBack q)).getD (exact q)).digits
        ((candidates.find? (readsBack q)).getD (exact q)).exponent
      = finite false q h := by
  cases hf : candidates.find? (readsBack q) with
  | none =>
    rw [Option.getD_none]
    exact ofDecimal_exact h
  | some d =>
    rw [Option.getD_some]
    exact eq_of_readsBack h (List.find?_some hf)

theorem ofDecimal_shortest {q : Nat} (h : Representable q) :
    ofDecimal false (shortest q).digits (shortest q).exponent = finite false q h :=
  ofDecimal_chosen h _

/-- The digits that a number is written with are its value. -/
theorem ofDecimal_written (negative : Bool) {q : Nat} (h : Representable q) :
    ofDecimal negative (Nat.ofDigitChars 10 (written q).1 0) (written q).2
      = finite negative q h := by
  unfold written
  split
  · next hz =>
    subst hz
    have hd : Nat.ofDigitChars 10 ['0'] 0 = 0 := by decide
    simp only [hd, ofDecimal]
    rw [if_pos (Int.le_refl 0), Nat.zero_mul, Nat.zero_mul]
    exact ofRatio_one negative h
  · rw [Nat.ofDigitChars_ten_toDigits]
    exact ofDecimal_sign (ofDecimal_shortest h) negative

theorem isDigit_written (q : Nat) : ∀ c ∈ (written q).1, c.isDigit = true := by
  unfold written
  split
  · decide
  · intro c hc
    exact Nat.isDigit_of_mem_toDigits (by decide) (by decide) hc

theorem written_ne_nil (q : Nat) : (written q).1 ≠ [] := by
  unfold written
  split
  · decide
  · exact Nat.toDigits_ne_nil

end Double

/-! ### Layout -/

section

variable {digits : Text}

theorem takeWhile_digits {rest : Text} (h : ∀ c ∈ digits, c.isDigit = true) :
    (digits ++ '.' :: rest).takeWhile Char.isDigit = digits
      ∧ (digits ++ '.' :: rest).dropWhile Char.isDigit = '.' :: rest := by
  rw [List.takeWhile_append_of_pos h, List.dropWhile_append_of_pos h,
    List.takeWhile_cons_of_neg (by decide), List.dropWhile_cons_of_neg (by decide), List.append_nil]
  exact ⟨rfl, rfl⟩

theorem pointed?_digits (h : ∀ c ∈ digits, c.isDigit = true) (hne : digits ≠ []) :
    pointed? digits = some (digits, 0) := by
  simp only [pointed?, List.takeWhile_eq_self_iff.2 h, List.dropWhile_eq_nil_iff.2 h]
  rw [if_neg (by simpa using hne)]

theorem pointed?_point {whole fraction : Text} (hw : ∀ c ∈ whole, c.isDigit = true)
    (hf : ∀ c ∈ fraction, c.isDigit = true) (hne : whole ≠ []) :
    pointed? (whole ++ '.' :: fraction) = some (whole ++ fraction, -(fraction.length : Int)) := by
  have h : (whole ++ '.' :: fraction).takeWhile Char.isDigit = whole
      ∧ (whole ++ '.' :: fraction).dropWhile Char.isDigit = '.' :: fraction := takeWhile_digits hw
  simp only [pointed?, h.1, h.2]
  rw [if_pos]
  simpa [hne] using hf

theorem isDigit_replicate_zero (n : Nat) : ∀ c ∈ List.replicate n '0', c.isDigit = true := by
  intro c hc
  rw [List.eq_of_mem_replicate hc]
  decide

/-- Zeros behind the digits multiply. -/
theorem ofDecimal_append_zeros (digits : Text) {exponent : Int} (he : 0 ≤ exponent)
    (negative : Bool) :
    Double.ofDecimal negative
        (Nat.ofDigitChars 10 (digits ++ List.replicate exponent.toNat '0') 0) 0
      = Double.ofDecimal negative (Nat.ofDigitChars 10 digits 0) exponent := by
  rw [Nat.ofDigitChars_append, Nat.ofDigitChars_replicate_zero]
  simp only [Double.ofDecimal]
  rw [if_pos (Int.le_refl 0), if_pos he, Int.toNat_zero, Nat.pow_zero, Nat.mul_one,
    Nat.mul_comm (Nat.ofDigitChars 10 digits 0)]

/-- Zeros in front of the digits do not count. -/
theorem ofDigitChars_zeros_append (n : Nat) (digits : Text) :
    Nat.ofDigitChars 10 (List.replicate n '0' ++ digits) 0 = Nat.ofDigitChars 10 digits 0 := by
  rw [Nat.ofDigitChars_append, Nat.ofDigitChars_replicate_zero, Nat.mul_zero]

/-- The layout moves the point, and the digits still count the same. -/
theorem pointed?_positional (h : ∀ c ∈ digits, c.isDigit = true) (hne : digits ≠ [])
    (exponent : Int) (negative : Bool) :
    ∃ digits' exponent', pointed? (Double.positional digits exponent) = some (digits', exponent')
      ∧ Double.ofDecimal negative (Nat.ofDigitChars 10 digits' 0) exponent'
        = Double.ofDecimal negative (Nat.ofDigitChars 10 digits 0) exponent := by
  unfold Double.positional
  split
  -- the point stands behind the digits, between two of them, or in front of them
  · next he =>
    have hall : ∀ c ∈ digits ++ List.replicate exponent.toNat '0', c.isDigit = true :=
      List.forall_mem_append.2 ⟨h, isDigit_replicate_zero _⟩
    exact ⟨_, 0, pointed?_digits hall (by simp [hne]), ofDecimal_append_zeros digits he negative⟩
  · next he =>
    simp only
    split
    · next hp =>
      refine ⟨digits, exponent, ?_, rfl⟩
      rw [pointed?_point (fun c hc => h c (List.mem_of_mem_take hc))
        (fun c hc => h c (List.mem_of_mem_drop hc)), List.take_append_drop]
      · simp only [List.length_drop, Option.some.injEq, Prod.mk.injEq, true_and]
        omega
      · intro hz
        have hl := congrArg List.length hz
        simp only [List.length_take, List.length_nil] at hl
        omega
    · next hp =>
      have hall : ∀ c ∈ List.replicate ((-exponent).toNat - digits.length) '0' ++ digits,
          c.isDigit = true := List.forall_mem_append.2 ⟨isDigit_replicate_zero _, h⟩
      have hexponent : exponent
          = -((List.replicate ((-exponent).toNat - digits.length) '0' ++ digits).length : Int) := by
        simp only [List.length_append, List.length_replicate]
        omega
      refine ⟨_, _, @pointed?_point ['0'] _ (by decide) hall (by decide), ?_⟩
      rw [← hexponent, ← List.append_assoc, List.singleton_append, ← List.replicate_succ,
        ofDigitChars_zeros_append]

theorem head?_positional (h : ∀ c ∈ digits, c.isDigit = true) (hne : digits ≠ [])
    (exponent : Int) : ∃ c, (Double.positional digits exponent).head? = some c ∧ c.isDigit = true := by
  obtain ⟨d, rest, rfl⟩ := List.exists_cons_of_ne_nil hne
  have hd : d.isDigit = true := h d (List.mem_cons_self ..)
  unfold Double.positional
  split
  · exact ⟨d, rfl, hd⟩
  · next he =>
    simp only
    split
    · next hp =>
      refine ⟨d, ?_, hd⟩
      have hpos : (d :: rest).length - (-exponent).toNat ≠ 0 := by omega
      obtain ⟨n, hn⟩ := Nat.exists_eq_succ_of_ne_zero hpos
      rw [hn]
      rfl
    · exact ⟨'0', rfl, by decide⟩

theorem head?_digits_ne_point {rest : Text} (h : ∀ c ∈ digits, c.isDigit = true)
    (hne : digits ≠ []) : (digits ++ rest).head? ≠ some '.' := by
  obtain ⟨c, w, rfl⟩ := List.exists_cons_of_ne_nil hne
  intro hc
  obtain rfl : c = '.' := Option.some.inj hc
  exact absurd (h '.' (List.mem_cons_self ..)) (by decide)

theorem isPointed_of_pointed? {t : Text} {p : Text × Int} (h : pointed? t = some p) :
    isPointed t = true := by
  have hdec : ∀ c ∈ t.takeWhile Char.isDigit, isDecimalDigit c = true :=
    fun c hc => isDecimalDigit_of_isDigit (List.mem_takeWhile_imp hc)
  have ht : t = t.takeWhile Char.isDigit ++ t.dropWhile Char.isDigit :=
    List.takeWhile_append_dropWhile.symm
  unfold pointed? at h
  simp only at h
  split at h
  · next hrest =>
    rw [hrest, List.append_nil] at ht
    have hdrop : t.dropWhile isDecimalDigit = [] := by
      apply List.dropWhile_eq_nil_iff.2
      intro c hc
      rw [ht] at hc
      exact hdec c hc
    split at h
    · cases h
    · next hw =>
      rw [← ht] at hw
      simp only [isPointed, hdrop]
      simpa using hw
  · next fraction hrest =>
    have hdrop : t.dropWhile isDecimalDigit = '.' :: fraction := by
      rw [hrest] at ht
      rw [ht, List.dropWhile_append_of_pos hdec, List.dropWhile_cons_of_neg (by decide)]
    split at h
    · next hf =>
      simp only [Bool.and_eq_true, List.all_eq_true, Bool.not_eq_eq_eq_not, Bool.not_true,
        Bool.and_eq_false_imp] at hf
      simp only [isPointed, hdrop, Bool.and_eq_true, List.all_eq_true]
      refine ⟨fun c hc => isDecimalDigit_of_isDigit (hf.1 c hc), ?_⟩
      cases hfr : fraction with
      | cons => simp
      | nil =>
        -- without a fraction there is a whole part, and `t` begins with a digit
        have hwhole : t.takeWhile Char.isDigit ≠ [] := by
          intro hnil
          have hw := hf.2 (List.isEmpty_iff.2 hnil)
          rw [hfr] at hw
          cases hw
        have hhead : t.head? ≠ some '.' := by
          rw [ht]
          exact head?_digits_ne_point (fun c hc => List.mem_takeWhile_imp hc) hwhole
        simp [hhead]
    · cases h
  · cases h

end

/-! ### Numerals -/

theorem splitSign_sign (negative : Bool) {t : Text}
    (h : ∃ c, t.head? = some c ∧ c.isDigit = true) :
    splitSign (Double.sign negative ++ t) = (negative, t) := by
  obtain ⟨c, hc, hd⟩ := h
  cases negative with
  | true => rfl
  | false =>
    obtain ⟨u, rfl⟩ := List.head?_eq_some_iff.1 hc
    show splitSign (c :: u) = (false, c :: u)
    unfold splitSign
    split
    · next he =>
      obtain ⟨rfl, _⟩ := List.cons.inj he
      exact absurd hd (by decide)
    · next he =>
      obtain ⟨rfl, _⟩ := List.cons.inj he
      exact absurd hd (by decide)
    · rfl

theorem splitSign_text {negative : Bool} {quanta : Nat} {hr : Representable quanta} :
    splitSign (Double.finite negative quanta hr).text
      = (negative, Double.positional (Double.written quanta).1 (Double.written quanta).2) :=
  splitSign_sign negative
    (head?_positional (Double.isDigit_written quanta) (Double.written_ne_nil quanta) _)

/-- The text of a finite number names it. -/
theorem ofPositional?_text {x : Double} (h : x.isFinite = true) :
    Double.ofPositional? x.text = some x := by
  cases x with
  | nan | infinite => cases h
  | finite negative quanta hr =>
    obtain ⟨ds, e, hp, hv⟩ := pointed?_positional (Double.isDigit_written quanta)
      (Double.written_ne_nil quanta) (Double.written quanta).2 negative
    simp only [Double.ofPositional?, splitSign_text, hp, Option.map_some, hv,
      Double.ofDecimal_written negative hr]

/-- A positional text may name an infinite number, but always names a number. -/
theorem ne_nan_of_ofPositional? {t : Text} {x : Double} (h : Double.ofPositional? t = some x) :
    x ≠ .nan := by
  have hratio (negative : Bool) (n d : Nat) : Double.ofRatio negative n d ≠ .nan := by
    unfold Double.ofRatio
    split <;> exact Double.noConfusion
  have hdecimal (negative : Bool) (digits : Nat) (exponent : Int) :
      Double.ofDecimal negative digits exponent ≠ .nan := by
    unfold Double.ofDecimal
    split <;> exact hratio _ _ _
  obtain ⟨⟨digits, exponent⟩, _, rfl⟩ := Option.map_eq_some_iff.1 h
  exact hdecimal _ _ _

theorem isNumeral_text {x : Double} (h : x.isFinite = true) : isNumeral x.text = true := by
  cases x with
  | nan | infinite => cases h
  | finite negative quanta hr =>
    obtain ⟨ds, e, hp, _⟩ := pointed?_positional (Double.isDigit_written quanta)
      (Double.written_ne_nil quanta) (Double.written quanta).2 negative
    simp only [isNumeral, splitSign_text]
    exact isPointed_of_pointed? hp

/-- The characters of number literals. -/
def isNumeralChar (c : Char) : Bool := isDecimalDigit c || c == '.' || c == '-' || c == '+'

theorem isNumeralChar_of_isPointed {t : Text} (h : isPointed t = true) :
    ∀ c ∈ t, isNumeralChar c = true := by
  have ht : t = t.takeWhile isDecimalDigit ++ t.dropWhile isDecimalDigit :=
    List.takeWhile_append_dropWhile.symm
  intro c hc
  rw [ht] at hc
  rcases List.mem_append.1 hc with hc | hc
  · simp [isNumeralChar, List.mem_takeWhile_imp hc]
  · unfold isPointed at h
    split at h
    · next hd =>
      rw [hd] at hc
      cases hc
    · next fraction hd =>
      rw [hd] at hc
      simp only [Bool.and_eq_true, List.all_eq_true] at h
      rcases List.mem_cons.1 hc with rfl | hc
      · decide
      · simp [isNumeralChar, h.1 c hc]
    · cases h

theorem isNumeralChar_of_isNumeral {t : Text} (h : isNumeral t = true) :
    ∀ c ∈ t, isNumeralChar c = true := by
  unfold isNumeral splitSign at h
  split at h
  · intro c hc
    rcases List.mem_cons.1 hc with rfl | hc
    · decide
    · exact isNumeralChar_of_isPointed h c hc
  · intro c hc
    rcases List.mem_cons.1 hc with rfl | hc
    · decide
    · exact isNumeralChar_of_isPointed h c hc
  · exact isNumeralChar_of_isPointed h

end UnionTyping
