/-
  UnionTyping/Grammar/Parser.lean
  ===============================
  **Parsers** — a parser is handed a whole text and a state, and answers with a
  value or a `ParseError`; in both cases it leaves a state and a trace.  The
  state is the type environment and the nesting depth of the expression being
  read.

  A failing parser leaves whatever state it has reached: the next form of a
  choice goes on from there.  `atomically` takes the bindings of a failed parser
  back, `isolated` keeps bindings from leaking out at all.
-/
import UnionTyping.Grammar.Fault
import UnionTyping.Tree.Typing

namespace UnionTyping

/-- What a parser works on besides its text. -/
structure ParseState where
  env : TypeEnv
  depth : Nat := 0

namespace ParseState

def enter (s : ParseState) : ParseState := { s with depth := s.depth + 1 }

def leave (s : ParseState) : ParseState := { s with depth := s.depth - 1 }

@[simp] theorem depth_enter (s : ParseState) : s.enter.depth = s.depth + 1 := rfl

@[simp] theorem depth_leave (s : ParseState) : s.leave.depth = s.depth - 1 := rfl

end ParseState

/-- What a run gives: an answer, the state it leaves and what it reports. -/
structure Run (α : Type) where
  result : Except ParseError α
  state : ParseState
  events : List Event := []

/-- A computation over the parse state. -/
def ParseM (α : Type) : Type := ParseState → Run α

namespace ParseM

variable {α β : Type}

protected def bind (x : ParseM α) (f : α → ParseM β) : ParseM β := fun s =>
  let r := x s
  match r.result with
  | .error e => ⟨.error e, r.state, r.events⟩
  | .ok a =>
    let q := f a r.state
    ⟨q.result, q.state, r.events ++ q.events⟩

instance : Monad ParseM where
  pure a := fun s => ⟨.ok a, s, []⟩
  bind := ParseM.bind

/-! ### Steps -/

def fail (e : ParseError) : ParseM α := fun s => ⟨.error e, s, []⟩

/-- Reject a fragment. -/
def reject (fragment : Text) (fault : Fault) : ParseM α := fail (.reject fragment fault)

def ofExcept (x : Except ParseError α) : ParseM α := fun s => ⟨x, s, []⟩

/-- A typing step against the current environment. -/
def typing (f : TypeEnv → Typing α) : ParseM α := fun s =>
  let r := f s.env
  ⟨r.result.mapError .type, s, r.events⟩

def report (e : Event) : ParseM Unit := fun s => ⟨.ok (), s, [e]⟩

/-- Report that a node was read from a text, at the current depth. -/
def reportFormed (n : Node) (t : Text) : ParseM Unit := fun s =>
  ⟨.ok (), s, [.formed s.depth n.kind t]⟩

/-- Change the environment. -/
def modifyEnv (f : TypeEnv → TypeEnv) : ParseM Unit := fun s => ⟨.ok (), { s with env := f s.env }, []⟩

/-! ### Scopes -/

/-- Take the bindings back if `x` fails. -/
def atomically (x : ParseM α) : ParseM α := fun s =>
  let r := x s
  match r.result with
  | .ok _ => r
  | .error _ => { r with state := { r.state with env := s.env } }

/-- Work on a copy of the state. -/
def isolated (x : ParseM α) : ParseM α := fun s => { x s with state := s }

/-- One level deeper. -/
def nested (x : ParseM α) : ParseM α := fun s =>
  let r := x s.enter
  { r with state := r.state.leave }

/-! ### Failures -/

/-- Change the error of a failing computation. -/
def mapError (f : ParseError → ParseError) (x : ParseM α) : ParseM α := fun s =>
  let r := x s
  { r with result := r.result.mapError f }

/-- A text that `x` declines is rejected for `fault`. -/
def orReject (x : ParseM α) (fragment : Text) (fault : Fault) : ParseM α :=
  x.mapError fun
    | .noMatch => .reject fragment fault
    | e => e

/-! ### Equations -/

@[simp] theorem pure_apply (a : α) (s : ParseState) : (pure a : ParseM α) s = ⟨.ok a, s, []⟩ := rfl

theorem bind_apply (x : ParseM α) (f : α → ParseM β) (s : ParseState) :
    (x >>= f) s = match (x s).result with
      | .error e => ⟨.error e, (x s).state, (x s).events⟩
      | .ok a =>
        ⟨(f a (x s).state).result, (f a (x s).state).state,
          (x s).events ++ (f a (x s).state).events⟩ := rfl

private theorem id_map (x : ParseM α) : id <$> x = x := by
  funext s
  show ParseM.bind x (fun a => fun s => ⟨.ok a, s, []⟩) s = x s
  simp only [ParseM.bind]
  rcases x s with ⟨_ | _, _, _⟩ <;> simp

private theorem pure_bind (a : α) (f : α → ParseM β) : (pure a >>= f) = f a := by
  funext s
  show ParseM.bind _ f s = f a s
  simp [ParseM.bind]

private theorem bind_assoc {γ : Type} (x : ParseM α) (f : α → ParseM β) (g : β → ParseM γ) :
    (x >>= f) >>= g = x >>= fun a => f a >>= g := by
  funext s
  show ParseM.bind (ParseM.bind x f) g s = ParseM.bind x (fun a => ParseM.bind (f a) g) s
  simp only [ParseM.bind]
  rcases x s with ⟨_ | a, s', es⟩
  · rfl
  · rcases h : f a s' with ⟨_ | b, s'', es'⟩
    · simp [h]
    · simp [h]

instance : LawfulMonad ParseM := LawfulMonad.mk' ParseM id_map pure_bind bind_assoc

end ParseM

/-- A parser: a computation for each text. -/
abbrev Parser (α : Type) : Type := Text → ParseM α

namespace Parser

variable {α β : Type}

/-- Change the value of a parser. -/
def map (f : α → β) (p : Parser α) : Parser β := fun t => f <$> p t

/-- `p`, or `q` if `p` declines the text.  A rejection by `p` is final. -/
def or (p q : Parser α) : Parser α := fun t s =>
  let r := p t s
  match r.result with
  | .error .noMatch =>
    let r' := q t r.state
    { r' with events := r.events ++ r'.events }
  | _ => r

/-- The first parser that does not decline the text. -/
def choice : List (Parser α) → Parser α
  | [] => fun _ => ParseM.fail .noMatch
  | p :: ps => p.or (choice ps)

/-- Rejections by `p` are put under the name of a form. -/
def label (name : Text) (p : Parser α) : Parser α := fun t => (p t).mapError (.inForm name)

end Parser

end UnionTyping
