/-
  UnionTyping/Proofs/Grammar/Run.lean
  ===================================
  **Runs of parsers** — what a parser does to the environment, apart from the
  trace.  The nesting depth is in the state for the trace alone: a steady parser
  answers the same at every depth and leaves the depth as it was (`Steady`), so
  that it is a function of the environment (`on`).  There is one equation for
  each way of putting parsers together; no later proof looks inside a run.
-/
import UnionTyping.Grammar.Forms

namespace UnionTyping

namespace ParseM

variable {α β : Type}

/-! ### Steady parsers -/

structure Steady (x : ParseM α) : Prop where
  result : ∀ env d, (x ⟨env, d⟩).result = (x ⟨env, 0⟩).result
  state : ∀ env d, (x ⟨env, d⟩).state = ⟨(x ⟨env, 0⟩).state.env, d⟩

section

variable {x : ParseM α} {f : α → ParseM β}

theorem steady_pure (a : α) : Steady (pure a : ParseM α) := ⟨fun _ _ => rfl, fun _ _ => rfl⟩

theorem steady_fail (e : ParseError) : Steady (fail e : ParseM α) :=
  ⟨fun _ _ => rfl, fun _ _ => rfl⟩

theorem steady_reject (t : Text) (fault : Fault) : Steady (reject t fault : ParseM α) :=
  steady_fail _

theorem steady_ofExcept (r : Except ParseError α) : Steady (ofExcept r) :=
  ⟨fun _ _ => rfl, fun _ _ => rfl⟩

theorem steady_typing (g : TypeEnv → Typing α) : Steady (typing g) :=
  ⟨fun _ _ => rfl, fun _ _ => rfl⟩

theorem steady_report (e : Event) : Steady (report e) := ⟨fun _ _ => rfl, fun _ _ => rfl⟩

theorem steady_reportFormed (n : Node) (t : Text) : Steady (reportFormed n t) :=
  ⟨fun _ _ => rfl, fun _ _ => rfl⟩

theorem steady_modifyEnv (g : TypeEnv → TypeEnv) : Steady (modifyEnv g) :=
  ⟨fun _ _ => rfl, fun _ _ => rfl⟩

theorem steady_bind (hx : Steady x) (hf : ∀ a, Steady (f a)) : Steady (x >>= f) := by
  have h₀ (env : TypeEnv) : (x ⟨env, 0⟩).state = ⟨(x ⟨env, 0⟩).state.env, 0⟩ := hx.state env 0
  constructor
  · intro env d
    rw [bind_apply, bind_apply, hx.result env d]
    cases (x ⟨env, 0⟩).result with
    | error e => rfl
    | ok a =>
      simp only
      rw [hx.state env d, (hf a).result, h₀]
  · intro env d
    rw [bind_apply, bind_apply, hx.result env d]
    cases (x ⟨env, 0⟩).result with
    | error e => exact hx.state env d
    | ok a =>
      simp only
      rw [hx.state env d, (hf a).state, h₀]

theorem steady_atomically (hx : Steady x) : Steady (atomically x) := by
  constructor
  · intro env d
    simp only [atomically]
    rw [hx.result env d]
    cases (x ⟨env, 0⟩).result with
    | error e => rfl
    | ok a => exact hx.result env d
  · intro env d
    simp only [atomically]
    rw [hx.result env d]
    cases (x ⟨env, 0⟩).result with
    | error e => simp only [hx.state env d]
    | ok a => exact hx.state env d

theorem steady_isolated (hx : Steady x) : Steady (isolated x) :=
  ⟨fun env d => hx.result env d, fun _ _ => rfl⟩

theorem steady_nested (hx : Steady x) : Steady (nested x) := by
  constructor
  · intro env d
    exact (hx.result env (d + 1)).trans (hx.result env 1).symm
  · intro env d
    have h₁ : (nested x ⟨env, d⟩).state = (x ⟨env, d + 1⟩).state.leave := rfl
    have h₂ : (nested x ⟨env, 0⟩).state = (x ⟨env, 1⟩).state.leave := rfl
    rw [h₁, h₂, hx.state env (d + 1), hx.state env 1]
    rfl

theorem steady_mapError (g : ParseError → ParseError) (hx : Steady x) : Steady (x.mapError g) := by
  constructor
  · intro env d
    exact congrArg (Except.mapError g) (hx.result env d)
  · exact fun env d => hx.state env d

theorem steady_orReject (t : Text) (fault : Fault) (hx : Steady x) :
    Steady (x.orReject t fault) := steady_mapError _ hx

theorem steady_mapM {γ : Type} {g : γ → ParseM α} {cs : List γ} (h : ∀ c, Steady (g c)) :
    Steady (cs.mapM g) := by
  induction cs with
  | nil => exact steady_pure []
  | cons c cs ih =>
    rw [List.mapM_cons]
    exact steady_bind (h c) fun a => steady_bind ih fun as => steady_pure (a :: as)

theorem steady_or {p q : Parser α} {t : Text} (hp : Steady (p t)) (hq : Steady (q t)) :
    Steady (p.or q t) := by
  have h₀ (env : TypeEnv) : (p t ⟨env, 0⟩).state = ⟨(p t ⟨env, 0⟩).state.env, 0⟩ := hp.state env 0
  constructor
  · intro env d
    simp only [Parser.or]
    rw [hp.result env d]
    rcases hr : (p t ⟨env, 0⟩).result with e | a
    · cases e with
      | noMatch =>
        simp only
        rw [hp.state env d, hq.result, h₀]
      | invalid | type => simp only [hp.result env d, hr]
    · simp only [hp.result env d, hr]
  · intro env d
    simp only [Parser.or]
    rw [hp.result env d]
    rcases hr : (p t ⟨env, 0⟩).result with e | a
    · cases e with
      | noMatch =>
        simp only
        rw [hp.state env d, hq.state, h₀]
      | invalid | type => exact hp.state env d
    · exact hp.state env d

end

/-! ### Runs as functions of the environment -/

/-- The answer and the environment that is left. -/
def on (x : ParseM α) (env : TypeEnv) : Except ParseError α × TypeEnv :=
  ((x ⟨env, 0⟩).result, (x ⟨env, 0⟩).state.env)

section

variable {x : ParseM α} {f : α → ParseM β} {env env₁ env₂ : TypeEnv}

@[simp] theorem on_pure (a : α) : (pure a : ParseM α).on env = (.ok a, env) := rfl

@[simp] theorem on_fail (e : ParseError) : (fail e : ParseM α).on env = (.error e, env) := rfl

@[simp] theorem on_reject (t : Text) (fault : Fault) :
    (reject t fault : ParseM α).on env = (.error (.reject t fault), env) := rfl

@[simp] theorem on_ofExcept (r : Except ParseError α) : (ofExcept r).on env = (r, env) := rfl

@[simp] theorem on_typing (g : TypeEnv → Typing α) :
    (typing g).on env = ((g env).result.mapError .type, env) := rfl

@[simp] theorem on_report (e : Event) : (report e).on env = (.ok (), env) := rfl

@[simp] theorem on_modifyEnv (g : TypeEnv → TypeEnv) :
    (modifyEnv g).on env = (.ok (), g env) := rfl

/-- Another error makes no other value. -/
theorem mapError_eq_ok_iff {ε δ : Type} {r : Except ε α} {g : ε → δ} {a : α} :
    r.mapError g = .ok a ↔ r = .ok a := by
  rcases r with e | b
  · constructor <;> exact fun h => by cases h
  · constructor <;> exact fun h => congrArg Except.ok (Except.ok.inj h)

theorem on_pure_eq_ok_iff {a b : α} :
    (pure a : ParseM α).on env = (.ok b, env₁) ↔ a = b ∧ env = env₁ := by
  rw [on_pure, Prod.mk.injEq, Except.ok.injEq]

theorem on_bind (hx : Steady x) :
    (x >>= f).on env = match x.on env with
      | (.error e, env₁) => (.error e, env₁)
      | (.ok a, env₁) => (f a).on env₁ := by
  have h₀ : (x ⟨env, 0⟩).state = ⟨(x ⟨env, 0⟩).state.env, 0⟩ := hx.state env 0
  unfold on
  rw [bind_apply]
  cases (x ⟨env, 0⟩).result with
  | error e => rfl
  | ok a =>
    simp only
    rw [h₀]

theorem on_bind_eq_ok_iff (hx : Steady x) {b : β} :
    (x >>= f).on env = (.ok b, env₂)
      ↔ ∃ a env₁, x.on env = (.ok a, env₁) ∧ (f a).on env₁ = (.ok b, env₂) := by
  rw [on_bind hx]
  rcases x.on env with ⟨e | a, env₁⟩
  · simp
  · constructor
    · exact fun h => ⟨a, env₁, rfl, h⟩
    · rintro ⟨_, _, he, h⟩
      obtain ⟨ha, rfl⟩ := Prod.mk.inj he
      obtain rfl := Except.ok.inj ha
      exact h

theorem on_ofExcept_bind_eq_ok_iff {r : Except ParseError α} {b : β} :
    (ofExcept r >>= f).on env = (.ok b, env₁) ↔ ∃ a, r = .ok a ∧ (f a).on env = (.ok b, env₁) := by
  rw [on_bind (steady_ofExcept r), on_ofExcept]
  cases r <;> simp

theorem on_typing_bind_eq_ok_iff {g : TypeEnv → Typing α} {b : β} :
    (typing g >>= f).on env = (.ok b, env₁)
      ↔ ∃ a, (g env).result = .ok a ∧ (f a).on env = (.ok b, env₁) := by
  rw [on_bind (steady_typing g), on_typing]
  constructor
  · intro h
    rcases hr : (g env).result with e | a
    · rw [hr] at h
      cases h
    · rw [hr] at h
      exact ⟨a, rfl, h⟩
  · rintro ⟨a, ha, h⟩
    rw [ha]
    exact h

theorem on_modifyEnv_bind {g : TypeEnv → TypeEnv} {f : Unit → ParseM β} :
    (modifyEnv g >>= f).on env = (f ()).on (g env) := by
  rw [on_bind (steady_modifyEnv g), on_modifyEnv]

theorem on_report_bind {e : Event} {f : Unit → ParseM β} :
    (report e >>= f).on env = (f ()).on env := by
  rw [on_bind (steady_report e), on_report]

theorem on_bind_eq_error_iff (hx : Steady x) {e : ParseError} :
    (x >>= f).on env = (.error e, env₂)
      ↔ x.on env = (.error e, env₂)
        ∨ ∃ a env₁, x.on env = (.ok a, env₁) ∧ (f a).on env₁ = (.error e, env₂) := by
  rw [on_bind hx]
  rcases x.on env with ⟨e | a, env₁⟩
  · simp
  · constructor
    · exact fun h => Or.inr ⟨a, env₁, rfl, h⟩
    · rintro (he | ⟨_, _, he, h⟩)
      · cases he
      · obtain ⟨ha, rfl⟩ := Prod.mk.inj he
        obtain rfl := Except.ok.inj ha
        exact h

theorem on_ofExcept_bind_eq_error_iff {r : Except ParseError α} {e : ParseError} :
    (ofExcept r >>= f).on env = (.error e, env₁)
      ↔ (r = .error e ∧ env = env₁) ∨ ∃ a, r = .ok a ∧ (f a).on env = (.error e, env₁) := by
  rw [on_bind (steady_ofExcept r), on_ofExcept]
  cases r <;> simp

/-- A typing step leaves the environment as it is, whatever comes of it. -/
theorem on_typing_bind_eq_error {g : TypeEnv → Typing α} {e : ParseError}
    (h : (typing g >>= f).on env = (.error e, env₁)) :
    env = env₁ ∨ ∃ a, (f a).on env = (.error e, env₁) := by
  rcases (on_bind_eq_error_iff (steady_typing g)).1 h with ht | ⟨a, env₂, ht, hf⟩
  · exact Or.inl (congrArg Prod.snd ht)
  · obtain rfl : env = env₂ := congrArg Prod.snd ht
    exact Or.inr ⟨a, hf⟩

theorem on_atomically :
    (atomically x).on env = match x.on env with
      | (.ok a, env₁) => (.ok a, env₁)
      | (.error e, _) => (.error e, env) := by
  unfold on atomically
  simp only
  cases hr : (x ⟨env, 0⟩).result <;> simp [hr]

theorem on_atomically_eq_ok_iff {a : α} :
    (atomically x).on env = (.ok a, env₁) ↔ x.on env = (.ok a, env₁) := by
  rw [on_atomically]
  rcases x.on env with ⟨e | a, env₁⟩ <;> simp

/-- What fails atomically leaves the environment as it was. -/
theorem env_of_on_atomically {e : ParseError} (h : (atomically x).on env = (.error e, env₁)) :
    env₁ = env := by
  rw [on_atomically] at h
  split at h
  · cases h
  · exact (Prod.mk.inj h).2.symm

theorem on_isolated : (isolated x).on env = ((x.on env).1, env) := rfl

theorem on_nested (hx : Steady x) : (nested x).on env = x.on env := by
  have h₁ : (nested x).on env = ((x ⟨env, 1⟩).result, (x ⟨env, 1⟩).state.env) := rfl
  rw [h₁, hx.result env 1, hx.state env 1]
  rfl

theorem on_mapError (g : ParseError → ParseError) :
    (x.mapError g).on env = ((x.on env).1.mapError g, (x.on env).2) := rfl

theorem on_mapError_eq_ok_iff {g : ParseError → ParseError} {a : α} :
    (x.mapError g).on env = (.ok a, env₁) ↔ x.on env = (.ok a, env₁) := by
  rw [on_mapError, Prod.ext_iff, Prod.ext_iff]
  exact and_congr_left fun _ => mapError_eq_ok_iff

theorem env_of_on_mapError {g : ParseError → ParseError} {e : ParseError}
    (h : (x.mapError g).on env = (.error e, env₁)) :
    ∃ e', x.on env = (.error e', env₁) := by
  rw [on_mapError] at h
  rcases hx : x.on env with ⟨e' | a, env₂⟩
  · rw [hx] at h
    obtain ⟨_, rfl⟩ := Prod.mk.inj h
    exact ⟨e', rfl⟩
  · rw [hx] at h
    cases h

end

/-! ### Decisions -/

/-- The parser does not leave its text to another form. -/
def Decides (x : ParseM α) : Prop := ∀ s, (x s).result ≠ .error .noMatch

section

variable {x : ParseM α} {f : α → ParseM β}

theorem decides_pure (a : α) : Decides (pure a : ParseM α) := fun _ h => by cases h

theorem decides_reject (t : Text) (fault : Fault) : Decides (reject t fault : ParseM α) :=
  fun _ h => by cases h

theorem decides_ofExcept {r : Except ParseError α} (h : r ≠ .error .noMatch) :
    Decides (ofExcept r) := fun _ => h

theorem decides_typing (g : TypeEnv → Typing α) : Decides (typing g) := by
  intro s h
  have h' : (g s.env).result.mapError ParseError.type = .error .noMatch := h
  cases hg : (g s.env).result with
  | error e =>
    rw [hg] at h'
    cases h'
  | ok a =>
    rw [hg] at h'
    cases h'

theorem decides_report (e : Event) : Decides (report e) := fun _ h => by cases h

theorem decides_modifyEnv (g : TypeEnv → TypeEnv) : Decides (modifyEnv g) := fun _ h => by cases h

theorem decides_bind (hx : Decides x) (hf : ∀ a, Decides (f a)) : Decides (x >>= f) := by
  intro s
  rw [bind_apply]
  have h := hx s
  cases hr : (x s).result with
  | error e =>
    rw [hr] at h
    exact fun he => h (by simpa using he)
  | ok a => exact hf a _

theorem decides_atomically (hx : Decides x) : Decides (atomically x) := by
  intro s
  have h := hx s
  simp only [atomically]
  split <;> exact h

theorem decides_isolated (hx : Decides x) : Decides (isolated x) := fun s => hx s

theorem decides_inForm {name : Text} (hx : Decides x) :
    Decides (x.mapError (.inForm name)) := by
  intro s h
  have h' : (x s).result.mapError (ParseError.inForm name) = .error .noMatch := h
  have hs := hx s
  rcases hr : (x s).result with e | a
  · rw [hr] at h' hs
    rcases e with _ | ⟨t, fault, form⟩ | e
    · exact hs rfl
    · cases form <;> cases h'
    · cases h'
  · rw [hr] at h'
    cases h'

theorem decides_orReject (t : Text) (fault : Fault) : Decides (x.orReject t fault) := by
  intro s h
  have hm : (x.orReject t fault s).result = (x s).result.mapError _ := rfl
  rw [hm] at h
  rcases hr : (x s).result with e | a
  · rw [hr] at h
    cases e <;> cases h
  · rw [hr] at h
    cases h

theorem decides_mapM {γ : Type} {g : γ → ParseM α} {cs : List γ} (h : ∀ c, Decides (g c)) :
    Decides (cs.mapM g) := by
  induction cs with
  | nil => exact decides_pure []
  | cons c cs ih =>
    rw [List.mapM_cons]
    exact decides_bind (h c) fun a => decides_bind ih fun as => decides_pure (a :: as)

/-- What decides is not changed by an alternative. -/
theorem or_of_decides {p q : Parser α} {t : Text} (h : Decides (p t)) : p.or q t = p t := by
  funext s
  have hs := h s
  -- the match goes past its first case because of `hs`
  simp only [Parser.or]

theorem decides_or_left {p q : Parser α} {t : Text} (h : Decides (p t)) : Decides (p.or q t) := by
  rwa [or_of_decides h]

theorem decides_or_right {p q : Parser α} {t : Text} (h : Decides (q t)) : Decides (p.or q t) := by
  intro s
  simp only [Parser.or]
  split
  · exact h _
  · next hne => exact hne

theorem or_of_fail {p q : Parser α} {t : Text} (h : p t = fail .noMatch) : p.or q t = q t := by
  funext s
  simp only [Parser.or, h, fail, List.nil_append]

end

end ParseM

end UnionTyping
