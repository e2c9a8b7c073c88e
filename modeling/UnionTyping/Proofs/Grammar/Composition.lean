/-
  UnionTyping/Proofs/Grammar/Composition.lean
  ===========================================
  **Compositionality** — texts with valid answers, put together with the signs of
  a form, have the node of that form as their answer, whatever the texts look
  like inside; and the environment is left as reading them one after the other
  leaves it.
-/
import UnionTyping.Proofs.Grammar.Effects
import UnionTyping.Proofs.Grammar.Statements

namespace UnionTyping

open Text

/-- Reading `t` in `env` answers with `n` and leaves `env'`. -/
def Answers (t : Text) (env : TypeEnv) (n : Node) (env' : TypeEnv) : Prop :=
  (read t env).result = .ok n ∧ (read t env).env = env'

section

variable {env env₁ : TypeEnv} {e : Text} {n : Node} {type : SourceType}

/-- A list of texts is answered text by text. -/
theorem chain_answers_iff {es : List Text} {ns : List Node} {env' : TypeEnv} :
    Chain Answers es env ns env'
      ↔ (readAll env es).result = .ok ns ∧ (readAll env es).env = env' := by
  constructor
  · intro h
    induction h with
    | nil => exact ⟨rfl, rfl⟩
    | cons hn _ ih =>
      obtain ⟨hresult, henv⟩ := hn
      simp only [readAll, hresult, henv, ih.1, ih.2]
      exact ⟨rfl, trivial⟩
  · rintro ⟨h, rfl⟩
    induction es generalizing env ns with
    | nil =>
      obtain rfl := Except.ok.inj h
      exact .nil
    | cons e es ih =>
      rcases hr : (read e env).result with err | n
      · simp only [readAll, hr] at h
        cases h
      · simp only [readAll, hr] at h ⊢
        rcases hs : (readAll (read e env).env es).result with err | ms
        · rw [hs] at h
          cases h
        · rw [hs] at h
          obtain rfl := Except.ok.inj h
          exact .cons ⟨hr, rfl⟩ (ih hs)

theorem chain_of_readAll {es : List Text} {ns : List Node} (h : (readAll env es).result = .ok ns)
    (hv : ∀ n ∈ ns, n.isInvalid = false) : Chain Reads es env ns (readAll env es).env := by
  have hchain := chain_answers_iff.2 ⟨h, rfl⟩
  generalize (readAll env es).env = env' at hchain
  clear h
  induction hchain with
  | nil => exact .nil
  | cons hn _ ih =>
    obtain ⟨hresult, rfl⟩ := hn
    obtain ⟨hvalid, hothers⟩ := List.forall_mem_cons.1 hv
    exact .cons (reads_of_read hresult hvalid) (ih hothers)

theorem Chain.cons_inv {R : Reading.Relation} {es : List Text} {ns : List Node}
    {env' : TypeEnv} (h : Chain R (e :: es) env (n :: ns) env') :
    ∃ env₁, R e env n env₁ ∧ Chain R es env₁ ns env' := by
  cases h with
  | cons h₁ h₂ => exact ⟨_, h₁, h₂⟩

theorem Chain.singleton_inv {R : Reading.Relation} {env' : TypeEnv}
    (h : Chain R [e] env [n] env') : R e env n env' := by
  obtain ⟨_, h₁, h₂⟩ := h.cons_inv
  cases h₂
  exact h₁

/-- The last text of a chain is read where the others have left the environment. -/
theorem Chain.concat_inv {R : Reading.Relation} {es : List Text} {ns : List Node}
    {env' : TypeEnv} (h : Chain R (es ++ [e]) env ns env') :
    ∃ ms n env₁, ns = ms ++ [n] ∧ Chain R es env ms env₁ ∧ R e env₁ n env' := by
  induction es generalizing env ns with
  | nil =>
    cases h with
    | @cons _ _ n _ _ _ _ hn hrest =>
      cases hrest
      exact ⟨[], n, env, rfl, .nil, hn⟩
  | cons d es ih =>
    cases h with
    | @cons _ _ m _ _ _ _ hm hrest =>
      obtain ⟨ms, n, env₁, rfl, hms, hn⟩ := ih hrest
      exact ⟨m :: ms, n, env₁, rfl, .cons hm hms, hn⟩

/-- What a name is bound to can change while a value is read, that it is bound cannot. -/
theorem typeOf_assignment_var {x : Name} (hx : env.contains x = true) (h : Reads e env n env₁)
    (ht : (typeOf env₁ n).result = .ok type) :
    (typeOf env₁ (.assignment (.var x) n)).result = .ok type := by
  have hbound : (env₁.lookup? x).isSome = true := by
    rw [env_of_reads h, TypeEnv.lookup?_bind, Option.isSome_or]
    simp only [Bool.or_eq_true]
    exact Or.inr hx
  obtain ⟨bound, hb⟩ := Option.isSome_iff_exists.1 hbound
  simp only [typeOf, typeOfTarget, Typing.ofVariable, hb, Traced.result_bind, Traced.result_pure]
  exact ht

/-- Texts that are read one after the other can be put together: into a list, the
    arguments of a call, a callee with its arguments, the parent of a member and
    the value of a return statement or an assignment. -/
theorem read_composed (env : TypeEnv) (es : List Text) (ns : List Node)
    (h : (readAll env es).result = .ok ns) (hv : ∀ n ∈ ns, n.isInvalid = false) :
    Answers ('\x7b' :: ([','].intercalate es ++ ['\x7d'])) env (.list ns) (readAll env es).env
      ∧ (∀ f, isName f = true →
          Answers (f ++ '(' :: ([','].intercalate es ++ [')'])) env (.call (.var f) ns [])
            (readAll env es).env)
      ∧ (∀ e rest n others, es = e :: rest → ns = n :: others →
          Answers ('(' :: (e ++ [')']) ++ '(' :: ([','].intercalate rest ++ [')'])) env
            (.call n others []) (readAll env es).env)
      ∧ (∀ e n, es = [e] → ns = [n] →
          (∀ m, isIdentifier m = true →
            Answers ('(' :: (e ++ [')']) ++ '.' :: m) env (.member n m) (readAll env es).env)
          ∧ Answers ("return ".toList ++ e) env (.ret (some n)) (readAll env es).env
          ∧ ∀ x type, isName x = true → env.contains x = true →
              (typeOf (readAll env es).env n).result = .ok type →
              Answers (x ++ " = ".toList ++ e) env (.assignment (.var x) n) (readAll env es).env) := by
  have hchain := chain_of_readAll h hv
  refine ⟨?list, ?call, ?applied, ?single⟩
  case list => exact read_of_reads (reads_list hchain)
  case call =>
    intro f hf
    exact read_of_reads (reads_call (operand_of_isName hf) (reads_var hf) hchain)
  case applied =>
    rintro e rest n others rfl rfl
    obtain ⟨env₁, he, hrest⟩ := hchain.cons_inv
    have hb := (sealed_of_reads he).toBalanced
    exact read_of_reads (reads_call (operand_group hb) ((reads_group hb).2 he) hrest)
  case single =>
    rintro e n rfl rfl
    have he := hchain.singleton_inv
    have hb := (sealed_of_reads he).toBalanced
    refine ⟨?member, ?ret, ?assignment⟩
    case member =>
      intro m hm
      exact read_of_reads (reads_member (operand_group hb) ((reads_group hb).2 he) hm)
    case ret => exact read_of_reads (reads_return he)
    case assignment =>
      intro x type hx hbound ht
      have htype := typeOf_assignment_var hbound he ht
      have hr := reads_assignment (assignable_of_isName hx) (targeted_var hx) he htype
      rw [List.append_assoc]
      exact read_of_reads hr

/-- Neither the sign and the string in a declaration nor the keyword in a lambda
    takes the text around them apart. -/
theorem read_composed_declaration :
    (∃ a b env₂,
      Answers "\x7bvar y = \"),\",(p)~>\x7breturn y\x7d\x7d".toList .initial (.list [a, b]) env₂
      ∧ Answers "f(var y = \"),\",(p)~>\x7breturn y\x7d)".toList .initial
        (.call (.var ['f']) [a, b] []) env₂
      ∧ Answers "(var y = \"),\")((p)~>\x7breturn y\x7d)".toList .initial (.call a [b] []) env₂)
    ∧ ∃ a env₁, Answers "(var y = \"),\").m".toList .initial (.member a ['m']) env₁
      ∧ Answers "return var y = \"),\"".toList .initial (.ret (some a)) env₁
      ∧ Answers "print = var y = \"),\"".toList .initial
        (.assignment (.var "print".toList) a) env₁ := by
  have hok (es : List Text) {β : Type} (f : Node → β) (bs : List β)
      (h : (readAll .initial es).result.toOption.map (·.map f) = some bs) :
      ∃ ns, (readAll .initial es).result = .ok ns ∧ ns.map f = bs := by
    obtain ⟨ns, hns, hf⟩ := Option.map_eq_some_iff.1 h
    refine ⟨ns, ?_, hf⟩
    cases hr : (readAll .initial es).result with
    | error e =>
      rw [hr] at hns
      cases hns
    | ok ms =>
      rw [hr] at hns
      exact congrArg Except.ok (Option.some.inj hns)
  constructor
  · obtain ⟨ns, hr, hns⟩ := hok ["var y = \"),\"".toList, "(p)~>\x7breturn y\x7d".toList]
      Node.isInvalid [false, false] (by decide +kernel)
    obtain ⟨a, ns, rfl, ha, hns⟩ := List.map_eq_cons_iff.1 hns
    obtain ⟨b, ns, rfl, hb, hns⟩ := List.map_eq_cons_iff.1 hns
    obtain rfl := List.map_eq_nil_iff.1 hns
    obtain ⟨hlist, hcall, happlied, _⟩ :=
      read_composed .initial _ _ hr (by simpa using And.intro ha hb)
    exact ⟨a, b, _, hlist, hcall ['f'] (by decide), happlied _ _ _ _ rfl rfl⟩
  · obtain ⟨ns, hr, hns⟩ := hok ["var y = \"),\"".toList]
      (fun n => (n.isInvalid,
        (typeOf (readAll .initial ["var y = \"),\"".toList]).env n).result.toOption.isSome))
      [(false, true)] (by decide +kernel)
    obtain ⟨a, ns, rfl, ha, hns⟩ := List.map_eq_cons_iff.1 hns
    obtain rfl := List.map_eq_nil_iff.1 hns
    obtain ⟨hv, ht⟩ := Prod.mk.inj ha
    obtain ⟨_, _, _, hsingle⟩ := read_composed .initial _ _ hr (by simpa using hv)
    obtain ⟨hmember, hret, hassignment⟩ := hsingle _ _ rfl rfl
    obtain ⟨type, htype⟩ : ∃ type,
        (typeOf (readAll .initial ["var y = \"),\"".toList]).env a).result = .ok type := by
      cases hr : (typeOf (readAll .initial ["var y = \"),\"".toList]).env a).result with
      | error e =>
        rw [hr] at ht
        cases ht
      | ok type => exact ⟨type, rfl⟩
    exact ⟨a, _, hmember ['m'] (by decide), hret,
      hassignment "print".toList type (by decide) (by decide +kernel) htype⟩

end

end UnionTyping
