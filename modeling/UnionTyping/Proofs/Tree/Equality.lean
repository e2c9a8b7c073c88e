/-
  UnionTyping/Proofs/Tree/Equality.lean
  =====================================
  **Equality is reflexive** — on types without exception, on trees unless a number
  in them is not finite: what is not a number is not equal to itself, and an
  infinite literal has no numeral.
-/
import UnionTyping.Tree.Node

namespace UnionTyping

/-! ### Types -/

section

variable {ν : Type} [DecidableEq ν]

theorem Entry.allAmong_of_forall {es fs : List (Entry ν)}
    (h : ∀ e ∈ es, ∃ f ∈ fs, e.same f = true) : Entry.allAmong es fs = true := by
  induction es with
  | nil => simp [Entry.allAmong]
  | cons e es ih =>
    simp only [Entry.allAmong, Bool.and_eq_true, List.any_eq_true]
    exact ⟨h e (List.mem_cons_self ..), ih fun d hd => h d (List.mem_cons_of_mem _ hd)⟩

mutual

theorem UnionType.same_refl : (t : UnionType ν) → t.same t = true
  | .of es => by
    have h := Entry.same_refl_of_mem es
    simp only [UnionType.same, BEq.rfl, Bool.true_and]
    exact Entry.allAmong_of_forall fun e he => ⟨e, he, h e he⟩

theorem Entry.same_refl : (e : Entry ν) → e.same e = true
  | .named h as => by simp [Entry.same, UnionType.sameAll_refl as]
  | .function t ps r => by
    simp [Entry.same, UnionType.sameAll_refl ps, UnionType.same_refl r]

theorem Entry.same_refl_of_mem : (es : List (Entry ν)) → ∀ e ∈ es, e.same e = true
  | [], _, he => by cases he
  | d :: es, e, he => by
    rcases List.mem_cons.1 he with h | h
    · rw [h]
      exact Entry.same_refl d
    · exact Entry.same_refl_of_mem es e h

theorem UnionType.sameAll_refl : (ts : List (UnionType ν)) → UnionType.sameAll ts ts = true
  | [] => by simp [UnionType.sameAll]
  | t :: ts => by simp [UnionType.sameAll, UnionType.same_refl t, UnionType.sameAll_refl ts]

end

theorem UnionType.beq_refl (t : UnionType ν) : (t == t) = true := UnionType.same_refl t

end

theorem Node.sameDeclared_refl (t : Option SourceType) : Node.sameDeclared t t = true := by
  cases t with
  | none => rfl
  | some t => exact UnionType.beq_refl t

theorem LambdaHead.same_refl (h : LambdaHead) : h.same h = true := by
  have hp (ps : List Parameter) : LambdaHead.sameParams ps ps = true := by
    induction ps with
    | nil => rfl
    | cons p ps ih =>
      simp [LambdaHead.sameParams, Parameter.same, UnionType.beq_refl p.type, ih]
  simp [LambdaHead.same, hp, UnionType.beq_refl h.result]

/-! ### Trees -/

mutual

/-- Every number in the tree is finite. -/
def Node.Finite : Node → Prop
  | .number x => x.isFinite = true
  | .list es => Node.FiniteAll es
  | .lambda _ body => Node.FiniteAll body
  | .call f as _ => Node.Finite f ∧ Node.FiniteAll as
  | .member p _ => Node.Finite p
  | .declaration _ _ _ _ value => Node.Finite value
  | .assignment t value => Target.Finite t ∧ Node.Finite value
  | .ret (some value) => Node.Finite value
  | _ => True

def Target.Finite : Target → Prop
  | .member p _ => Node.Finite p
  | _ => True

def Node.FiniteAll : List Node → Prop
  | [] => True
  | n :: ns => Node.Finite n ∧ Node.FiniteAll ns

end

mutual

def Node.decideFinite : (n : Node) → Decidable n.Finite
  | .number x => inferInstanceAs (Decidable (x.isFinite = true))
  | .list es => Node.decideFiniteAll es
  | .lambda _ body => Node.decideFiniteAll body
  | .call f as _ =>
    haveI := Node.decideFinite f
    haveI := Node.decideFiniteAll as
    inferInstanceAs (Decidable (f.Finite ∧ Node.FiniteAll as))
  | .member p _ => Node.decideFinite p
  | .declaration _ _ _ _ value => Node.decideFinite value
  | .assignment t value =>
    haveI := Target.decideFinite t
    haveI := Node.decideFinite value
    inferInstanceAs (Decidable (t.Finite ∧ value.Finite))
  | .ret (some value) => Node.decideFinite value
  | .ret none | .string _ | .reference _ | .var _ | .invalid .. => isTrue trivial

def Target.decideFinite : (t : Target) → Decidable t.Finite
  | .member p _ => Node.decideFinite p
  | .var _ | .dereference _ => isTrue trivial

def Node.decideFiniteAll : (ns : List Node) → Decidable (Node.FiniteAll ns)
  | [] => isTrue trivial
  | n :: ns =>
    haveI := Node.decideFinite n
    haveI := Node.decideFiniteAll ns
    inferInstanceAs (Decidable (n.Finite ∧ Node.FiniteAll ns))

end
instance (n : Node) : Decidable n.Finite := n.decideFinite

mutual

theorem Node.same_refl : (n : Node) → n.Finite → n.same n = true
  | .number x, h => by
    rw [Node.same, Double.same_self_iff]
    rintro rfl
    cases (show Double.isFinite .nan = true from by simpa only [Node.Finite] using h)
  | .string _, _ | .reference _, _ | .var _, _ | .invalid .., _ => by simp [Node.same]
  | .list es, h => by
    rw [Node.Finite] at h
    rw [Node.same, Node.sameAll_refl es h]
  | .lambda head body, h => by
    rw [Node.Finite] at h
    simp [Node.same, LambdaHead.same_refl head, Node.sameAll_refl body h]
  | .call f as gs, h => by
    rw [Node.Finite] at h
    simp [Node.same, Node.same_refl f h.1, Node.sameAll_refl as h.2, UnionType.sameAll_refl gs]
  | .member p name, h => by
    rw [Node.Finite] at h
    simp [Node.same, Node.same_refl p h]
  | .declaration constant name declared type value, h => by
    rw [Node.Finite] at h
    simp [Node.same, Node.sameDeclared_refl declared, UnionType.beq_refl type,
      Node.same_refl value h]
  | .assignment t value, h => by
    rw [Node.Finite] at h
    simp [Node.same, Target.same_refl t h.1, Node.same_refl value h.2]
  | .ret none, _ => by simp [Node.same]
  | .ret (some value), h => by
    rw [Node.Finite] at h
    simp [Node.same, Node.same_refl value h]

theorem Target.same_refl : (t : Target) → t.Finite → t.same t = true
  | .var _, _ | .dereference _, _ => by simp [Target.same]
  | .member p name, h => by
    rw [Target.Finite] at h
    simp [Target.same, Node.same_refl p h]

theorem Node.sameAll_refl : (ns : List Node) → Node.FiniteAll ns → Node.sameAll ns ns = true
  | [], _ => by simp [Node.sameAll]
  | n :: ns, h => by
    rw [Node.FiniteAll] at h
    simp [Node.sameAll, Node.same_refl n h.1, Node.sameAll_refl ns h.2]

end

end UnionTyping
