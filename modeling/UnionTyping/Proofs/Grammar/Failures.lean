/-
  UnionTyping/Proofs/Grammar/Failures.lean
  ========================================
  **What a failed reading leaves behind** — declarations and lambdas take their
  bindings back when they fail, the other forms do not.  So a text that cannot be
  read leaves the bindings of the expressions that were read to their end before
  the fault, outside every declaration and lambda (`leftovers`), and no others.
  The environment is unchanged exactly if these bind every name to what it was
  bound to before.
-/
import UnionTyping.Proofs.Grammar.Effects
import UnionTyping.Proofs.Tree.Equality

namespace UnionTyping

open Text ParseM

/-! ### Texts that are read in the open -/

/-- The texts that are read before an assignment's value, unless the target is
    rejected. -/
def targetTexts? (t : Text) : Option (List Text) :=
  if (dereferenceShape? t).isSome || isName t then some []
  else (memberForm? t).map fun p => [p.1]

/-- The texts inside that a form reads one after the other, keeping what they
    bind even if it fails later. -/
def FormShape.exposed : FormShape → List Text
  | .call shape =>
    shape.caller :: if ((commaItems shape.generics).mapM parseType).isOk
      then commaItems shape.arguments else []
  | .list inner => commaItems inner
  | .short inner => [inner]
  | .member parent _ => [parent]
  | .giveBack value => value.toList
  | .assignment before after =>
    match targetTexts? (stripParens before) with
    | some ts => ts ++ [after]
    | none => []
  | _ => []

theorem length_of_mem_exposed {t u : Text} {k : FormShape} (hk : k.Fits t) (hu : u ∈ k.exposed) :
    u.length < t.length := by
  cases k with
  | call shape =>
    have hl := length_of_callShape? (Option.filter_eq_some_iff.1 hk).1
    rcases List.mem_cons.1 hu with rfl | hu
    · exact hl.1
    · split at hu
      · have := length_of_mem_commaItems hu
        omega
      · cases hu
  | list inner =>
    have hl := length_of_unwrap? hk
    have := length_of_mem_commaItems hu
    omega
  | short inner =>
    have hl := length_of_unwrap? hk
    rw [List.mem_singleton.1 hu]
    omega
  | member parent name =>
    rw [List.mem_singleton.1 hu]
    exact length_of_memberForm? hk
  | giveBack value =>
    obtain rfl := Option.mem_toList.1 hu
    exact length_of_returnShape? hk
  | assignment before after =>
    have hl := length_of_cutFirst hk
    have hb := length_stripParens_le before
    simp only [FormShape.exposed, targetTexts?] at hu
    split at hu
    · next ts hts =>
      rcases List.mem_append.1 hu with hu | hu
      · split at hts
        · obtain rfl := Option.some.inj hts
          cases hu
        · obtain ⟨p, hp, rfl⟩ := Option.map_eq_some_iff.1 hts
          have hm := length_of_memberForm? hp
          rw [List.mem_singleton.1 hu]
          omega
      · rw [List.mem_singleton.1 hu]
        exact hl.2
    · cases hu
  | number | string | reference | lambda | declaration | var => cases hu

/-! ### Leftovers -/

/-- The nodes of the texts before the first one that fails, and what that one
    leaves. -/
def chainLeftovers (left : Text → TypeEnv → List Node) : List Text → TypeEnv → List Node
  | [], _ => []
  | t :: ts, env =>
    match (expression t).on env with
    | (.ok n, env₁) => n :: chainLeftovers left ts env₁
    | (.error _, _) => left t env

theorem chainLeftovers_congr {left left' : Text → TypeEnv → List Node} {ts : List Text}
    (h : ∀ t ∈ ts, left t = left' t) (env : TypeEnv) :
    chainLeftovers left ts env = chainLeftovers left' ts env := by
  induction ts generalizing env with
  | nil => rfl
  | cons t ts ih =>
    have ih := ih fun u hu => h u (List.mem_cons_of_mem _ hu)
    simp only [chainLeftovers, ih, h t (List.mem_cons_self ..)]

/-- What was read to its end, in the open, before the reading of a text failed. -/
def leftovers (t : Text) (env : TypeEnv) : List Node :=
  match formShape? (stripParens t) with
  | some k =>
    chainLeftovers (fun u e => if u.length < t.length then leftovers u e else []) k.exposed env
  | none => []
termination_by t.length

/-- The restriction to shorter texts is never felt. -/
theorem leftovers_eq (t : Text) (env : TypeEnv) :
    leftovers t env = match formShape? (stripParens t) with
      | some k => chainLeftovers leftovers k.exposed env
      | none => [] := by
  rw [leftovers]
  cases hk : formShape? (stripParens t) with
  | none => rfl
  | some k =>
    apply chainLeftovers_congr
    intro u hu
    have h₁ := length_of_mem_exposed (fits_of_formShape? hk) hu
    have h₂ := length_stripParens_le t
    funext e
    exact if_pos (by omega)

/-! ### Failing forms -/

section

variable {t : Text} {env env' : TypeEnv} {e : ParseError}

theorem env_on_mapM_cons (t : Text) (ts : List Text) (env : TypeEnv) :
    (((t :: ts).mapM expression).on env).2 = match (expression t).on env with
      | (.ok _, env₁) => ((ts.mapM expression).on env₁).2
      | (.error _, env₁) => env₁ := by
  rw [List.mapM_cons, on_bind (steady_expression t)]
  rcases (expression t).on env with ⟨e | n, env₁⟩
  · rfl
  · simp only
    rw [on_bind (steady_mapM steady_expression)]
    rcases (ts.mapM expression).on env₁ with ⟨e | ns, env₂⟩ <;> rfl

theorem env_on_singleton (t : Text) (env : TypeEnv) :
    (([t].mapM expression).on env).2 = ((expression t).on env).2 := by
  rw [env_on_mapM_cons]
  rcases (expression t).on env with ⟨e | n, env₁⟩ <;> rfl

/-- If what follows on a reading leaves nothing behind, the reading alone decides what
    is left. -/
theorem env_of_failed_bind {α β : Type} {x : ParseM α} {f : α → ParseM β} (hx : Steady x)
    (hf : ∀ a env₁ env₂, (f a).on env₁ = (.error e, env₂) → env₂ = env₁)
    (h : (x >>= f).on env = (.error e, env')) : env' = (x.on env).2 := by
  rcases (on_bind_eq_error_iff hx).1 h with h | ⟨a, env₁, ha, h⟩
  · rw [h]
  · rw [ha]
    exact hf a env₁ env' h

theorem env_of_failed_pure {α : Type} {a : α} (h : (pure a : ParseM α).on env = (.error e, env')) :
    env' = env := by
  cases h

theorem env_of_failed_typing {α β : Type} {g : TypeEnv → Typing α} {f : α → β}
    (h : (do return f (← typing g) : ParseM β).on env = (.error e, env')) : env' = env := by
  rcases on_typing_bind_eq_error h with rfl | ⟨_, h⟩
  · rfl
  · exact env_of_failed_pure h

theorem env_of_failed_call {shape : CallShape} (hk : callForm? t = some shape)
    (h : (Form.call expression t).on env = (.error e, env')) :
    env' = (((FormShape.call shape).exposed.mapM expression).on env).2 := by
  rw [call_of_some hk] at h
  rw [FormShape.exposed, env_on_mapM_cons]
  rcases (on_bind_eq_error_iff (steady_expression _)).1 h with hf | ⟨f, env₁, hf, h⟩
  · rw [hf]
  rw [hf]
  simp only
  rcases on_ofExcept_bind_eq_error_iff.1 h with ⟨hg, rfl⟩ | ⟨gs, hg, h⟩
  · rw [hg]
    rfl
  · rw [hg]
    exact env_of_failed_bind (steady_mapM steady_expression) (fun _ _ _ h => env_of_failed_pure h) h

/-- A target that is read leaves what the texts in it leave. -/
theorem env_of_target {before : Text} {target : Target}
    (h : (Form.target expression before).on env = (.ok target, env')) :
    ∃ ts, targetTexts? (stripParens before) = some ts
      ∧ ∀ us, (((ts ++ us).mapM expression).on env).2 = ((us.mapM expression).on env').2 := by
  have htarget := (on_target_eq_ok_iff steady_expression).1 h
  unfold targetTexts?
  cases htarget with
  | dereference hd => exact ⟨[], by simp [hd], fun us => rfl⟩
  | var _ hn => exact ⟨[], by simp [hn], fun us => rfl⟩
  | @member parent name p _ hd hn hm hp =>
    refine ⟨[parent], by simp [hd, hn, hm], ?_⟩
    intro us
    have hp : (expression parent).on env = (.ok p, env') := hp
    rw [List.singleton_append, env_on_mapM_cons, hp]

theorem env_of_failed_target {before : Text}
    (h : (Form.target expression before).on env = (.error e, env')) :
    match targetTexts? (stripParens before) with
    | some ts => ∀ us, (((ts ++ us).mapM expression).on env).2 = env'
    | none => env = env' := by
  unfold Form.target at h
  simp only at h
  split at h
  · cases h
  next hd =>
  split at h
  · cases h
  next hn =>
  obtain ⟨e', h⟩ := env_of_on_mapError h
  cases hm : memberForm? (stripParens before) with
  | none =>
    have ht : targetTexts? (stripParens before) = none := by simp [targetTexts?, hd, hn, hm]
    rw [memberParts_of_none hm] at h
    rw [ht]
    exact (Prod.mk.inj h).2
  | some p =>
    have ht : targetTexts? (stripParens before) = some [p.1] := by simp [targetTexts?, hd, hn, hm]
    rw [memberParts_of_some hm] at h
    rw [ht]
    intro us
    rcases (on_bind_eq_error_iff (steady_bind (steady_expression _) fun _ => steady_pure _)).1 h
      with h | ⟨_, _, _, h⟩
    · rcases (on_bind_eq_error_iff (steady_expression _)).1 h with h | ⟨_, _, _, h⟩
      · rw [List.singleton_append, env_on_mapM_cons, h]
      · cases h
    · cases h

theorem env_of_failed_assignment {before after : Text}
    (hk : cutAssignment t = some (before, after))
    (h : (Form.assignment expression t).on env = (.error e, env')) :
    env' = (((FormShape.assignment before after).exposed.mapM expression).on env).2 := by
  simp only [Form.assignment, hk] at h
  simp only [FormShape.exposed]
  rcases (on_bind_eq_error_iff (steady_target steady_expression)).1 h with ht | ⟨x, env₁, ht, h⟩
  · have hfail := env_of_failed_target ht
    cases hts : targetTexts? (stripParens before) with
    | some ts =>
      rw [hts] at hfail
      exact (hfail [after]).symm
    | none =>
      rw [hts] at hfail
      exact hfail.symm
  · obtain ⟨ts, hts, hread⟩ := env_of_target ht
    rw [hts]
    simp only
    rw [hread, env_on_singleton]
    -- what the value leaves is left, whether its reading or the typing fails
    exact env_of_failed_bind (steady_expression _) (fun _ _ _ h => env_of_failed_typing h) h

theorem env_of_failed_lambda (h : (Form.lambda expression t).on env = (.error e, env')) :
    env' = env := by
  unfold Form.lambda at h
  split at h
  · exact (Prod.mk.inj h).2.symm
  · rcases on_ofExcept_bind_eq_error_iff.1 h with ⟨_, rfl⟩ | ⟨_, _, h⟩
    · rfl
    rcases on_ofExcept_bind_eq_error_iff.1 h with ⟨_, rfl⟩ | ⟨_, _, h⟩
    · rfl
    rcases on_ofExcept_bind_eq_error_iff.1 h with ⟨_, rfl⟩ | ⟨_, _, h⟩
    · rfl
    exact env_of_on_atomically h

theorem env_of_failed_declaration (h : (Form.declaration expression t).on env = (.error e, env')) :
    env' = env := by
  unfold Form.declaration at h
  split at h
  · exact (Prod.mk.inj h).2.symm
  · simp only at h
    split at h
    · exact (Prod.mk.inj h).2.symm
    · split at h
      · exact (Prod.mk.inj h).2.symm
      · rcases on_ofExcept_bind_eq_error_iff.1 h with ⟨_, rfl⟩ | ⟨_, _, h⟩
        · rfl
        · exact env_of_on_atomically h

theorem state_or {p q : Parser Node} {s : ParseState} (hp : (p t s).state = s)
    (hq : (q t s).state = s) : (p.or q t s).state = s := by
  simp only [Parser.or]
  split
  · rw [hp]
    exact hq
  · exact hp

/-- Literals do not depend on the environment. -/
theorem env_on_literal (t : Text) (env : TypeEnv) : ((Form.literal t).on env).2 = env := by
  have hnumber (s : ParseState) : (Form.number t s).state = s := by
    unfold Form.number
    split
    · rfl
    · cases Double.ofPositional? t <;> rfl
  have hstring (s : ParseState) : (Form.string t s).state = s := by
    unfold Form.string
    cases quoted? t <;> rfl
  have hreference (s : ParseState) : (Form.reference t s).state = s := by
    unfold Form.reference
    cases referenceShape? t with
    | none => rfl
    | some name =>
      simp only
      split <;> rfl
  exact congrArg ParseState.env (state_or (state_or (hnumber _) (hstring _)) (hreference _))

/-- A form that fails leaves what the texts leave that it has read in the open. -/
theorem env_of_failed_form {k : FormShape} (hk : k.Fits t)
    (h : (k.parser expression t).on env = (.error e, env')) :
    env' = ((k.exposed.mapM expression).on env).2 := by
  cases k with
  | call shape =>
    obtain ⟨e', h⟩ := env_of_on_mapError h
    exact env_of_failed_call hk h
  | number | string | reference =>
    exact (congrArg Prod.snd h).symm.trans (env_on_literal t env)
  | list inner =>
    obtain ⟨e', h⟩ := env_of_on_mapError h
    simp only [Form.list, show unwrap? .curly t = some inner from hk] at h
    exact env_of_failed_bind (steady_mapM steady_expression) (fun _ _ _ h => env_of_failed_pure h) h
  | lambda shape =>
    obtain ⟨e', h⟩ := env_of_on_mapError h
    exact env_of_failed_lambda h
  | short inner =>
    obtain ⟨e', h⟩ := env_of_on_mapError h
    simp only [Form.short, show unwrap? .square t = some inner from hk] at h
    rw [FormShape.exposed, env_on_singleton]
    exact env_of_failed_bind (steady_expression _) (fun _ _ _ h => env_of_failed_typing h) h
  | member parent name =>
    obtain ⟨e', h⟩ := env_of_on_mapError h
    rw [member_of_some hk] at h
    rw [FormShape.exposed, env_on_singleton]
    exact env_of_failed_bind (steady_expression _) (fun _ _ _ h => env_of_failed_pure h) h
  | giveBack value =>
    obtain ⟨e', h⟩ := env_of_on_mapError h
    simp only [Form.giveBack, show returnShape? t = some value from hk] at h
    cases value with
    | none => cases h
    | some value =>
      rw [FormShape.exposed, Option.toList_some, env_on_singleton]
      exact env_of_failed_bind (steady_expression _) (fun _ _ _ h => env_of_failed_pure h) h
  | declaration constant rest =>
    obtain ⟨e', h⟩ := env_of_on_mapError h
    exact env_of_failed_declaration h
  | assignment before after =>
    obtain ⟨e', h⟩ := env_of_on_mapError h
    exact env_of_failed_assignment hk h
  | var =>
    rw [FormShape.parser, var_of_isName hk] at h
    cases h

/-! ### Failing readings -/

/-- What texts leave that are read one after the other, if each one that fails
    leaves its leftovers. -/
theorem env_on_mapM {ts : List Text}
    (h : ∀ u ∈ ts, ∀ e env env', (expression u).on env = (.error e, env') →
      env' = env.bind (Node.bindingsAll (leftovers u env))) :
    ((ts.mapM expression).on env).2
      = env.bind (Node.bindingsAll (chainLeftovers leftovers ts env)) := by
  induction ts generalizing env with
  | nil => rfl
  | cons t ts ih =>
    rw [env_on_mapM_cons, chainLeftovers]
    rcases hr : (expression t).on env with ⟨e | n, env₁⟩
    · exact h t (List.mem_cons_self ..) _ _ _ hr
    · have hn : env₁ = env.bind n.bindings := env_of_reads hr
      have ih : ((ts.mapM expression).on env₁).2
          = env₁.bind (Node.bindingsAll (chainLeftovers leftovers ts env₁)) :=
        ih fun u hu => h u (List.mem_cons_of_mem _ hu)
      simp only
      rw [ih, Node.bindingsAll, TypeEnv.bind_append, ← hn]

theorem env_of_on_error (h : (expression t).on env = (.error e, env')) :
    env' = env.bind (Node.bindingsAll (leftovers t env)) := by
  induction t, env using leftovers.induct generalizing e env' with
  | case1 t env k hk ih =>
    rw [on_expression, hk] at h
    rw [leftovers_eq, hk]
    have hfits := fits_of_formShape? hk
    rw [env_of_failed_form hfits h]
    apply env_on_mapM
    intro u hu e env env' hr
    have h₁ := length_of_mem_exposed hfits hu
    have h₂ := length_stripParens_le t
    exact ih u env (by omega) hr
  | case2 t env hk =>
    rw [on_expression, hk] at h
    rw [leftovers_eq, hk]
    exact (Prod.mk.inj h).2.symm

/-- A text without a valid answer has failed. -/
theorem on_error_of_read (h : ∀ n, (read t env).result = .ok n → n.isInvalid = true) :
    ∃ e, (expression t).on env = (.error e, (read t env).env) := by
  rcases hr : (expression t).on env with ⟨e | n, env₁⟩
  · exact ⟨e, Prod.ext rfl (congrArg Prod.snd hr).symm⟩
  · have hreads : Reads t env n env₁ := hr
    have hv := h n (read_of_reads hreads).1
    rw [isInvalid_of_reads hreads] at hv
    cases hv

end

/-! ### When nothing is left behind -/

namespace TypeEnv

/-- The same variables and the same members with equal types, look-up by look-up. -/
structure Agrees (e f : TypeEnv) : Prop where
  bindings : ∀ x, Node.sameDeclared (e.lookup? x) (f.lookup? x) = true
  members : ∀ o m, Node.sameDeclared (e.lookupMember? o m) (f.lookupMember? o m) = true

/-- Entering bindings changes nothing if the last one of every name is what the
    name was bound to. -/
theorem agrees_bind_iff {env : TypeEnv} {bs : List (Name × SourceType)} :
    (env.bind bs).Agrees env ↔
      ∀ b ∈ bs, Node.sameDeclared (bs.reverse.lookup b.1) (env.lookup? b.1) = true := by
  have hlast {x : Name} {type : SourceType} (h : (x, type) ∈ bs) :
      ∃ last, bs.reverse.lookup x = some last := by
    cases hl : bs.reverse.lookup x with
    | some last => exact ⟨last, rfl⟩
    | none =>
      have hne := List.lookup_eq_none_iff.1 hl (x, type) (List.mem_reverse.2 h)
      simp at hne
  constructor
  · rintro h ⟨x, type⟩ hb
    have hv := h.bindings x
    obtain ⟨last, hl⟩ := hlast hb
    rw [lookup?_bind, hl, Option.some_or] at hv
    rwa [hl]
  · intro h
    refine ⟨?_, fun o m => Node.sameDeclared_refl _⟩
    intro x
    rw [lookup?_bind]
    cases hl : bs.reverse.lookup x with
    | none => exact Node.sameDeclared_refl _
    | some last =>
      obtain ⟨l₁, l₂, hl', _⟩ := List.lookup_eq_some_iff.1 hl
      have hm : (x, last) ∈ bs := by
        rw [← List.mem_reverse, hl']
        simp
      have hx := h _ hm
      rwa [hl] at hx

end TypeEnv

/-- A reading without a valid answer binds what it has read in the open, and the
    environment is unchanged exactly if that binds every name to what it was bound
    to. -/
theorem env_of_failure (t : Text) (env : TypeEnv)
    (h : ∀ n, (read t env).result = .ok n → n.isInvalid = true) :
    (read t env).env = env.bind (Node.bindingsAll (leftovers t env))
      ∧ ((read t env).env.Agrees env ↔
        ∀ b ∈ Node.bindingsAll (leftovers t env), Node.sameDeclared
          ((Node.bindingsAll (leftovers t env)).reverse.lookup b.1) (env.lookup? b.1) = true) := by
  obtain ⟨e, hr⟩ := on_error_of_read h
  have he := env_of_on_error hr
  refine ⟨he, ?_⟩
  rw [he]
  exact TypeEnv.agrees_bind_iff

/-- What is left behind binds `x` to the type that it had. -/
theorem env_of_failure_rebound :
    (∀ n, (read "[\x7bvar x = 5, y\x7d]".toList (TypeEnv.empty.insert ['x'] .number)).result = .ok n →
      n.isInvalid = true)
    ∧ (read "[\x7bvar x = 5, y\x7d]".toList (TypeEnv.empty.insert ['x'] .number)).env.Agrees
      (TypeEnv.empty.insert ['x'] .number) := by
  have h := Reading.isInvalid_of_node? (r := read "[\x7bvar x = 5, y\x7d]".toList
    (TypeEnv.empty.insert ['x'] .number)) (Option.isNone_iff_eq_none.1 (by decide +kernel))
  exact ⟨h, (env_of_failure _ _ h).2.2 (by decide +kernel)⟩

/-- The element before the fault stays bound. -/
theorem binding_left_by_failure :
    (∀ n, (read "[\x7bvar x = 5, y\x7d]".toList .empty).result = .ok n → n.isInvalid = true)
    ∧ ¬ (read "[\x7bvar x = 5, y\x7d]".toList .empty).env.Agrees .empty := by
  refine ⟨Reading.isInvalid_of_node? (Option.isNone_iff_eq_none.1 (by decide +kernel)), ?_⟩
  intro h
  have hx : Node.sameDeclared ((read "[\x7bvar x = 5, y\x7d]".toList .empty).env.lookup? ['x'])
      (TypeEnv.empty.lookup? ['x']) = false := by decide +kernel
  rw [h.bindings] at hx
  cases hx

end UnionTyping
