/-
  UnionTyping/Types/Trace.lean
  ============================
  **Traces** — what reading and typing report on their way: which forms were
  read, which names were bound, which generics were solved, which text was
  rejected.  A trace has no influence on a result.  `Traced` is a result with
  the events that led to it; taking the result commutes with sequencing
  (`result_bind`), so a traced computation is reasoned about as if it had no
  trace.
-/
import UnionTyping.Types.Source

namespace UnionTyping

inductive Event where
  /-- A form of some kind was read from a text, at a nesting depth. -/
  | formed (depth : Nat) (kind text : Text)
  /-- The parameters of a lambda become variables of the enclosing scope. -/
  | sharing (count : Nat)
  | bound (name : Name) (type : SourceType)
  | solved (generic : Name) (type : SourceType)
  | rejected (fragment reason : Text)

/-- A result with the events on the way to it. -/
structure Traced (ε α : Type) where
  result : Except ε α
  events : List Event := []

namespace Traced

variable {ε α β : Type}

protected def bind (x : Traced ε α) (f : α → Traced ε β) : Traced ε β :=
  match x.result with
  | .error e => ⟨.error e, x.events⟩
  | .ok a => ⟨(f a).result, x.events ++ (f a).events⟩

instance : Monad (Traced ε) where
  pure a := ⟨.ok a, []⟩
  bind := Traced.bind

def fail (e : ε) : Traced ε α := ⟨.error e, []⟩

def report (e : Event) : Traced ε Unit := ⟨.ok (), [e]⟩

/-- A result without events. -/
def ofExcept (x : Except ε α) : Traced ε α := ⟨x, []⟩

@[simp] theorem result_pure (a : α) : (pure a : Traced ε α).result = .ok a := rfl

@[simp] theorem result_fail (e : ε) : (fail e : Traced ε α).result = .error e := rfl

private theorem traced_id_map (x : Traced ε α) : id <$> x = x := by
  show Traced.bind x (fun a => ⟨.ok a, []⟩) = x
  rcases x with ⟨e | a, events⟩ <;> simp [Traced.bind]

private theorem traced_pure_bind (a : α) (f : α → Traced ε β) : (pure a >>= f) = f a := by
  show Traced.bind ⟨.ok a, []⟩ f = f a
  simp [Traced.bind]

private theorem traced_bind_assoc {γ : Type} (x : Traced ε α) (f : α → Traced ε β)
    (g : β → Traced ε γ) : (x >>= f) >>= g = x >>= fun a => f a >>= g := by
  show Traced.bind (Traced.bind x f) g = Traced.bind x fun a => Traced.bind (f a) g
  rcases x with ⟨e | a, events⟩
  · rfl
  · simp only [Traced.bind]
    rcases f a with ⟨e | b, events'⟩ <;> simp

instance : LawfulMonad (Traced ε) :=
  LawfulMonad.mk' (Traced ε) traced_id_map traced_pure_bind traced_bind_assoc

@[simp] theorem result_bind (x : Traced ε α) (f : α → Traced ε β) :
    (x >>= f).result = x.result >>= fun a => (f a).result := by
  show (Traced.bind x f).result = _
  unfold Traced.bind
  cases h : x.result <;> rfl

@[simp] theorem result_mapM (f : α → Traced ε β) (as : List α) :
    (as.mapM f).result = as.mapM fun a => (f a).result := by
  induction as with
  | nil => rfl
  | cons a as ih =>
    simp only [List.mapM_cons, result_bind, result_pure, ih]
    rfl

end Traced

end UnionTyping
