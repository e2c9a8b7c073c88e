/-
  UnionTyping/Proofs/Grammar/PartReaders.lean
  ===========================================
  **Only parts are handed on** — a form asks the parser of the inner expressions
  about parts of its own text and about nothing else, always one level deeper than
  the expression that it is a form of; and a text that it rejects is a stretch of
  its own text.  Both are said of two runs, with two parsers of the inner
  expressions: if these agree on the parts at the depth of the forms, so do the two
  runs (`agreesAt_expressionWith`), and the parsers of inner types are asked in the
  same way (`agreesIn_typeWith`).

  Two parsers that differ on one text only show by this that the text is not asked
  about; a parser beside itself shows where its rejections come from.
-/
import UnionTyping.Proofs.Grammar.Spans

namespace UnionTyping

open Text ParseM

/-- A rejected fragment is a stretch of `t`. -/
def ParseError.Locates (t : Text) : ParseError → Prop
  | .invalid fragment _ _ => fragment <:+: t
  | _ => True

theorem ParseError.Locates.mono {t u : Text} {e : ParseError} (h : e.Locates t) (ht : t <:+: u) :
    e.Locates u := by
  cases e with
  | noMatch => trivial
  | invalid fragment fault form => exact List.IsInfix.trans h ht
  | type error => trivial

/-! ### Answers -/

section

variable {α β : Type}

/-- The answers are the same, and an error locates in `t`. -/
def AgreesIn (t : Text) (r r' : Except ParseError α) : Prop :=
  r = r' ∧ Ensures (ParseError.Locates t) (fun _ => True) r

variable {t : Text}

theorem agreesIn_ok (a : α) : AgreesIn t (.ok a) (.ok a) := ⟨rfl, trivial⟩

theorem agreesIn_reject {fragment : Text} (fault : Fault) (h : fragment <:+: t) :
    AgreesIn t (.error (.reject fragment fault) : Except ParseError α)
      (.error (.reject fragment fault)) := ⟨rfl, h⟩

theorem locates_mono {u : Text} {r : Except ParseError α}
    (h : Ensures (ParseError.Locates t) (fun _ => True) r) (ht : t <:+: u) :
    Ensures (ParseError.Locates u) (fun _ => True) r := by
  cases r with
  | ok a => trivial
  | error e => exact ParseError.Locates.mono h ht

theorem AgreesIn.mono {u : Text} {r r' : Except ParseError α} (h : AgreesIn t r r')
    (ht : t <:+: u) : AgreesIn u r r' := ⟨h.1, locates_mono h.2 ht⟩

theorem agreesIn_bind {x y : Except ParseError α} {f g : α → Except ParseError β}
    (hx : AgreesIn t x y) (hf : ∀ a, AgreesIn t (f a) (g a)) : AgreesIn t (x >>= f) (y >>= g) := by
  obtain ⟨rfl, hx⟩ := hx
  have hfg : f = g := funext fun a => (hf a).1
  subst hfg
  exact ⟨rfl, ensures_bind hx fun a _ => (hf a).2⟩

theorem agreesIn_mapM {f g : β → Except ParseError α} {bs : List β}
    (h : ∀ b ∈ bs, AgreesIn t (f b) (g b)) : AgreesIn t (bs.mapM f) (bs.mapM g) := by
  induction bs with
  | nil => exact agreesIn_ok []
  | cons b bs ih =>
    rw [List.forall_mem_cons] at h
    rw [List.mapM_cons, List.mapM_cons]
    exact agreesIn_bind h.1 fun a => agreesIn_bind (ih h.2) fun as => agreesIn_ok (a :: as)

end

/-! ### Types -/

section

variable {t : Text}

theorem agreesIn_genericNames {generics : Option Text}
    (h : ∀ inner, generics = some inner → inner <:+: t) :
    AgreesIn t (genericNames generics) (genericNames generics) := by
  cases generics with
  | none => exact agreesIn_ok []
  | some inner =>
    refine agreesIn_mapM fun item hitem => ?_
    simp only
    split
    · exact agreesIn_ok _
    · refine agreesIn_reject _ ((trim_isInfix item).trans ?_)
      exact (isInfix_of_mem_commaItems hitem).trans (h inner rfl)

section

variable {sub sub' : Reader SourceType} {whole : Text}
  (hsub : ∀ u, Part u t → AgreesIn whole (sub u) (sub' u)) (ht : t <:+: whole)
include hsub

theorem agreesIn_typesWith {u : Text} (hu : Part u t) :
    AgreesIn whole (typesWith sub u) (typesWith sub' u) :=
  agreesIn_mapM fun item hitem => hsub item (.of_isInfix (isInfix_of_mem_commaItems hitem) hu)

include ht

theorem agreesIn_functionWith {shape : FunctionShape} (h : functionShape? t = some shape) :
    AgreesIn whole (functionWith sub t shape) (functionWith sub' t shape) := by
  obtain ⟨hgenerics, hparams, hresult⟩ := part_of_functionShape? h
  unfold functionWith
  refine agreesIn_bind ((agreesIn_genericNames hgenerics).mono ht) fun generics => ?_
  simp only
  split
  · exact agreesIn_reject _ ht
  · have hstem : Part (splitVariadic (trim shape.params)).1 t :=
      .of_isInfix ((splitVariadic_isInfix _).trans (trim_isInfix _)) hparams
    refine agreesIn_bind (agreesIn_typesWith hsub hstem) fun params => ?_
    exact agreesIn_bind (hsub _ hresult) fun result => agreesIn_ok _

theorem agreesIn_namedWith : AgreesIn whole (namedWith sub t) (namedWith sub' t) := by
  unfold namedWith
  simp only
  split
  · exact agreesIn_reject _ ht
  split
  · exact agreesIn_ok _
  split
  · exact agreesIn_reject _ ht
  · next inner hi =>
    have hinner : Part inner t := (part_of_unwrap? hi).trans_isInfix (isInfix_of_behindName t)
    exact agreesIn_bind (agreesIn_typesWith hsub hinner) fun as => agreesIn_ok _

end

/-- Reading a type asks about parts of the trimmed text. -/
theorem agreesIn_typeWith {sub sub' : Reader SourceType} {whole : Text}
    (hsub : ∀ u, Part u (trim t) → AgreesIn whole (sub u) (sub' u)) (ht : trim t <:+: whole) :
    AgreesIn whole (typeWith sub t) (typeWith sub' t) := by
  unfold typeWith
  simp only
  split
  · exact agreesIn_reject _ ht
  split
  · next htwo =>
    refine agreesIn_bind (agreesIn_mapM fun u hu => ?_) fun ms => agreesIn_ok _
    exact hsub u (part_of_mem_splitTop hu htwo)
  split
  · next inner hi => exact hsub inner (part_of_unwrap? hi)
  split
  · next shape hs => exact agreesIn_functionWith hsub ht hs
  · exact agreesIn_namedWith hsub ht

theorem agreesIn_parseType (t : Text) : AgreesIn t (parseType t) (parseType t) := by
  induction t using parseType.induct with
  | case1 t ih =>
    have hall : ∀ u, Part u (trim t) → AgreesIn t (parseType u) (parseType u) := by
      intro u hu
      have hu := hu.trans_isInfix (trim_isInfix t)
      exact (ih u hu.2).mono hu.isInfix
    rw [parseType_eq]
    exact agreesIn_typeWith hall (trim_isInfix t)

/-! ### Parameters -/

theorem agreesIn_parameterParts (t : Text) : AgreesIn t (parameterParts t) (parameterParts t) := by
  have hname (p : Name × Option SourceType) : AgreesIn t
      (if isName p.1 then (.ok p : Except ParseError (Name × Option SourceType))
        else .error (.reject (trim t) (.parameterName p.1)))
      (if isName p.1 then .ok p else .error (.reject (trim t) (.parameterName p.1))) := by
    split
    · exact agreesIn_ok _
    · exact agreesIn_reject _ (trim_isInfix t)
  unfold parameterParts
  simp only
  split
  · next l r hs =>
    have hr := (part_of_splitOnce? hs).2.isInfix.trans (trim_isInfix t)
    refine agreesIn_bind ((agreesIn_parseType r).mono hr) fun type => ?_
    exact agreesIn_bind (agreesIn_ok _) hname
  · exact agreesIn_bind (agreesIn_ok _) hname

theorem agreesIn_parameterItem (isLast : Bool) (item : Text) :
    AgreesIn item (parameterItem isLast item) (parameterItem isLast item) := by
  have hstem := (splitVariadic_isInfix (trim item)).trans (trim_isInfix item)
  unfold parameterItem
  rcases hv : splitVariadic (trim item) with ⟨stem, variadic⟩
  rw [hv] at hstem
  simp only at hstem ⊢
  have hitem : (if variadic then trimEnd stem else stem) <:+: item := by
    split
    · exact (trimEnd_isInfix stem).trans hstem
    · exact hstem
  split
  · exact agreesIn_reject _ hitem
  refine agreesIn_bind ((agreesIn_parameterParts _).mono hitem) fun p => ?_
  refine agreesIn_bind ?_ fun type => agreesIn_ok _
  unfold parameterType
  split
  · split
    · exact agreesIn_reject _ hitem
    · exact agreesIn_ok _
  · exact agreesIn_ok _

theorem agreesIn_parameterItems {items : List Text} (h : ∀ item ∈ items, item <:+: t) :
    AgreesIn t (parameterItems items) (parameterItems items) := by
  induction items with
  | nil => exact agreesIn_ok _
  | cons item items ih =>
    rw [List.forall_mem_cons] at h
    unfold parameterItems
    refine agreesIn_bind ((agreesIn_parameterItem _ item).mono h.1) fun p => ?_
    simp only
    split
    · exact agreesIn_ok _
    · exact agreesIn_bind (ih h.2) fun ps => agreesIn_ok _

theorem agreesIn_parseParameters (t : Text) :
    AgreesIn t (parseParameters t) (parseParameters t) :=
  agreesIn_parameterItems fun _ => isInfix_of_mem_commaItems

theorem agreesIn_declared {result : Option Text} (h : ∀ u, result = some u → u <:+: t) :
    AgreesIn t (result.mapM parseType) (result.mapM parseType) := by
  cases result with
  | none => exact agreesIn_ok none
  | some u =>
    rw [Option.mapM_some]
    exact agreesIn_bind ((agreesIn_parseType u).mono (h u rfl)) fun type => agreesIn_ok _

theorem agreesIn_writtenType (t : Text) :
    AgreesIn t (Form.writtenType t) (Form.writtenType t) := by
  unfold Form.writtenType
  simp only
  split
  · exact agreesIn_ok none
  split
  · exact agreesIn_reject _ (trim_isInfix t)
  · next u hu =>
    have hu := (isInfix_of_after? hu).trans (trim_isInfix t)
    exact agreesIn_bind ((agreesIn_parseType u).mono hu) fun type => agreesIn_ok _

end

/-! ### Runs -/

namespace ParseM

variable {α β : Type}

/-- From depth `d` both runs are one and the same; it stays at that depth, and an
    error locates in `t`. -/
def AgreesAt (d : Nat) (t : Text) (x y : ParseM α) : Prop :=
  ∀ s, s.depth = d →
    x s = y s ∧ (x s).state.depth = d ∧ Ensures (ParseError.Locates t) (fun _ => True) (x s).result

section

variable {d : Nat} {t : Text} {x y : ParseM α} {f g : α → ParseM β}

theorem AgreesAt.mono {u : Text} (h : AgreesAt d t x y) (ht : t <:+: u) : AgreesAt d u x y := by
  intro s hs
  obtain ⟨hxy, hdepth, hlocates⟩ := h s hs
  exact ⟨hxy, hdepth, locates_mono hlocates ht⟩

theorem agreesAt_pure (a : α) : AgreesAt d t (pure a) (pure a) := fun _ hs => ⟨rfl, hs, trivial⟩

theorem agreesAt_noMatch : AgreesAt d t (fail .noMatch : ParseM α) (fail .noMatch) :=
  fun _ hs => ⟨rfl, hs, trivial⟩

theorem agreesAt_reject {fragment : Text} (fault : Fault) (h : fragment <:+: t) :
    AgreesAt d t (reject fragment fault : ParseM α) (reject fragment fault) :=
  fun _ hs => ⟨rfl, hs, h⟩

theorem agreesAt_ofExcept {r : Except ParseError α} (h : AgreesIn t r r) :
    AgreesAt d t (ofExcept r) (ofExcept r) := fun _ hs => ⟨rfl, hs, h.2⟩

theorem agreesAt_typing (h : TypeEnv → Typing α) : AgreesAt d t (typing h) (typing h) := by
  refine fun s hs => ⟨rfl, hs, ?_⟩
  show Ensures _ _ ((h s.env).result.mapError ParseError.type)
  cases (h s.env).result with
  | ok a => trivial
  | error e => trivial

theorem agreesAt_report (e : Event) : AgreesAt d t (report e) (report e) :=
  fun _ hs => ⟨rfl, hs, trivial⟩

theorem agreesAt_reportFormed (n : Node) (u : Text) :
    AgreesAt d t (reportFormed n u) (reportFormed n u) := fun _ hs => ⟨rfl, hs, trivial⟩

theorem agreesAt_modifyEnv (h : TypeEnv → TypeEnv) :
    AgreesAt d t (modifyEnv h) (modifyEnv h) := fun _ hs => ⟨rfl, hs, trivial⟩

theorem agreesAt_bind (hx : AgreesAt d t x y) (hf : ∀ a, AgreesAt d t (f a) (g a)) :
    AgreesAt d t (x >>= f) (y >>= g) := by
  intro s hs
  obtain ⟨hxy, hdepth, hlocates⟩ := hx s hs
  rw [bind_apply, bind_apply, ← hxy]
  cases hr : (x s).result with
  | error e =>
    rw [hr] at hlocates
    exact ⟨rfl, hdepth, hlocates⟩
  | ok a =>
    obtain ⟨hfg, hfdepth, hflocates⟩ := hf a _ hdepth
    simp only [← hfg]
    exact ⟨trivial, hfdepth, hflocates⟩

theorem agreesAt_mapM {h k : β → ParseM α} {bs : List β}
    (hk : ∀ b ∈ bs, AgreesAt d t (h b) (k b)) : AgreesAt d t (bs.mapM h) (bs.mapM k) := by
  induction bs with
  | nil => exact agreesAt_pure []
  | cons b bs ih =>
    rw [List.forall_mem_cons] at hk
    rw [List.mapM_cons, List.mapM_cons]
    exact agreesAt_bind hk.1 fun a => agreesAt_bind (ih hk.2) fun as => agreesAt_pure (a :: as)

theorem agreesAt_atomically (hx : AgreesAt d t x y) :
    AgreesAt d t (atomically x) (atomically y) := by
  intro s hs
  obtain ⟨hxy, hdepth, hlocates⟩ := hx s hs
  simp only [atomically, ← hxy]
  cases hr : (x s).result with
  | error e =>
    rw [hr] at hlocates
    exact ⟨trivial, hdepth, hlocates⟩
  | ok a => exact ⟨trivial, hdepth, by rw [hr]; trivial⟩

theorem agreesAt_isolated (hx : AgreesAt d t x y) : AgreesAt d t (isolated x) (isolated y) := by
  intro s hs
  obtain ⟨hxy, _, hlocates⟩ := hx s hs
  simp only [isolated, ← hxy]
  exact ⟨trivial, hs, hlocates⟩

theorem agreesAt_nested (hx : AgreesAt (d + 1) t x y) : AgreesAt d t (nested x) (nested y) := by
  intro s hs
  obtain ⟨hxy, hdepth, hlocates⟩ := hx s.enter (by rw [ParseState.depth_enter, hs])
  simp only [nested, ← hxy]
  exact ⟨trivial, by rw [ParseState.depth_leave, hdepth, Nat.add_sub_cancel], hlocates⟩

theorem agreesAt_mapError {h : ParseError → ParseError}
    (hh : ∀ e, e.Locates t → (h e).Locates t) (hx : AgreesAt d t x y) :
    AgreesAt d t (x.mapError h) (y.mapError h) := by
  intro s hs
  obtain ⟨hxy, hdepth, hlocates⟩ := hx s hs
  simp only [mapError, ← hxy]
  refine ⟨trivial, hdepth, ?_⟩
  cases hr : (x s).result with
  | error e =>
    rw [hr] at hlocates
    exact hh e hlocates
  | ok a => trivial

theorem agreesAt_inForm (form : Text) (hx : AgreesAt d t x y) :
    AgreesAt d t (x.mapError (.inForm form)) (y.mapError (.inForm form)) := by
  refine agreesAt_mapError (fun e he => ?_) hx
  cases e with
  | noMatch => exact he
  | type error => exact he
  | invalid fragment fault inner =>
    cases inner with
    | none => exact he
    | some name => exact he

theorem agreesAt_orReject {fragment : Text} (fault : Fault) (h : fragment <:+: t)
    (hx : AgreesAt d t x y) :
    AgreesAt d t (x.orReject fragment fault) (y.orReject fragment fault) := by
  refine agreesAt_mapError (fun e he => ?_) hx
  cases e with
  | noMatch => exact h
  | type error => exact he
  | invalid fragment fault inner => exact he

theorem agreesAt_or {p q p' q' : Parser α} {u : Text} (hp : AgreesAt d t (p u) (p' u))
    (hq : AgreesAt d t (q u) (q' u)) : AgreesAt d t (p.or q u) (p'.or q' u) := by
  intro s hs
  obtain ⟨hpp', hdepth, hlocates⟩ := hp s hs
  obtain ⟨hqq', hqdepth, hqlocates⟩ := hq _ hdepth
  simp only [Parser.or, ← hpp']
  split
  · simp only [← hqq']
    exact ⟨trivial, hqdepth, hqlocates⟩
  · exact ⟨rfl, hdepth, hlocates⟩

end

end ParseM

/-! ### Forms -/

section

variable {d : Nat} {t whole : Text} {sub sub' : Parser Node}
  (hsub : ∀ u, Part u t → AgreesAt d whole (sub u) (sub' u)) (ht : t <:+: whole)
include hsub

theorem agreesAt_expressions {u : Text} (hu : Part u t) :
    AgreesAt d whole (Form.expressions sub u) (Form.expressions sub' u) :=
  agreesAt_mapM fun item hitem => hsub item (.of_isInfix (isInfix_of_mem_commaItems hitem) hu)

include ht

theorem agreesAt_statements {u : Text} (hu : Part u t) :
    AgreesAt d whole (Form.statements sub u) (Form.statements sub' u) := by
  have hsegment : ∀ v ∈ splitTop ';' (trim u), Part v t := fun v hv =>
    .of_isInfix ((isInfix_of_mem_splitTop hv).trans (trim_isInfix u)) hu
  have hlast : Part ((splitTop ';' (trim u)).getLast?.getD []) t := by
    cases hl : (splitTop ';' (trim u)).getLast? with
    | none => exact .of_isInfix List.nil_infix hu
    | some v => exact hsegment v (List.mem_of_getLast? hl)
  unfold Form.statements
  simp only
  split
  · exact agreesAt_pure []
  split
  · exact agreesAt_bind (hsub _ hlast) fun n => agreesAt_pure [n]
  split
  · exact agreesAt_reject _ (hlast.isInfix.trans ht)
  · exact agreesAt_mapM fun v hv => hsub v (hsegment v (List.dropLast_subset _ hv))

theorem agreesAt_call : AgreesAt d whole (Form.call sub t) (Form.call sub' t) := by
  cases hc : callForm? t with
  | none =>
    rw [call_of_none hc, call_of_none hc]
    exact agreesAt_noMatch
  | some shape =>
    obtain ⟨hcaller, hgenerics, harguments⟩ := part_of_callForm? hc
    rw [call_of_some hc, call_of_some hc]
    refine agreesAt_bind (hsub _ hcaller) fun callee => ?_
    refine agreesAt_bind (agreesAt_ofExcept (agreesIn_mapM fun u hu => ?_)) fun generics => ?_
    · exact (agreesIn_parseType u).mono
        ((isInfix_of_mem_commaItems hu).trans (hgenerics.trans ht))
    · exact agreesAt_bind (agreesAt_expressions hsub harguments) fun arguments => agreesAt_pure _

omit ht in
theorem agreesAt_list : AgreesAt d whole (Form.list sub t) (Form.list sub' t) := by
  unfold Form.list
  split
  · exact agreesAt_noMatch
  · next inner hi =>
    exact agreesAt_bind (agreesAt_expressions hsub (part_of_unwrap? hi)) fun es => agreesAt_pure _

theorem agreesAt_lambdaBody (params : List Parameter) {body : Text} (hbody : Part body t) :
    AgreesAt d whole (Form.lambdaBody sub params body) (Form.lambdaBody sub' params body) := by
  refine agreesAt_bind (agreesAt_modifyEnv _) fun _ => ?_
  refine agreesAt_bind (agreesAt_statements hsub ht hbody) fun body => ?_
  exact agreesAt_bind (agreesAt_typing _) fun type => agreesAt_pure _

theorem agreesAt_lambda : AgreesAt d whole (Form.lambda sub t) (Form.lambda sub' t) := by
  unfold Form.lambda
  split
  · exact agreesAt_noMatch
  next shape hl =>
  obtain ⟨hgenerics, hparams, hresult, hbody⟩ := part_of_lambdaShape? hl
  refine agreesAt_bind (agreesAt_ofExcept ((agreesIn_genericNames hgenerics).mono ht))
    fun generics => ?_
  refine agreesAt_bind
    (agreesAt_ofExcept ((agreesIn_parseParameters _).mono (hparams.trans ht))) fun params => ?_
  refine agreesAt_bind (agreesAt_ofExcept ((agreesIn_declared hresult).mono ht))
    fun declared => ?_
  refine agreesAt_atomically (agreesAt_bind ?_ fun body => ?_)
  · have hscoped := agreesAt_lambdaBody hsub ht params.1 hbody
    unfold Form.scopedBody
    split
    · exact agreesAt_isolated hscoped
    · exact agreesAt_bind (agreesAt_report _) fun _ => hscoped
  · simp only
    split
    · exact agreesAt_pure _
    · split
      · exact agreesAt_pure _
      · exact agreesAt_reject _ ht

omit ht in
theorem agreesAt_short : AgreesAt d whole (Form.short sub t) (Form.short sub' t) := by
  unfold Form.short
  split
  · exact agreesAt_noMatch
  · next inner hi =>
    refine agreesAt_bind (hsub _ (part_of_unwrap? hi)) fun body => ?_
    exact agreesAt_bind (agreesAt_typing _) fun type => agreesAt_pure _

omit ht in
theorem agreesAt_memberParts :
    AgreesAt d whole (Form.memberParts sub t) (Form.memberParts sub' t) := by
  cases hm : memberForm? t with
  | none =>
    rw [memberParts_of_none hm, memberParts_of_none hm]
    exact agreesAt_noMatch
  | some p =>
    rw [memberParts_of_some hm, memberParts_of_some hm]
    exact agreesAt_bind (hsub _ (part_of_memberForm? hm)) fun n => agreesAt_pure _

omit ht in
theorem agreesAt_member : AgreesAt d whole (Form.member sub t) (Form.member sub' t) :=
  agreesAt_bind (agreesAt_memberParts hsub) fun _ => agreesAt_pure _

omit ht in
theorem agreesAt_giveBack : AgreesAt d whole (Form.giveBack sub t) (Form.giveBack sub' t) := by
  unfold Form.giveBack
  split
  · exact agreesAt_noMatch
  · exact agreesAt_pure _
  · next value hr =>
    exact agreesAt_bind (hsub _ (part_of_returnShape? hr)) fun v => agreesAt_pure _

theorem agreesAt_declare (constant : Bool) (x : Name) (declared : Option SourceType)
    {value : Text} (hvalue : Part value t) :
    AgreesAt d whole (Form.declare sub t constant x declared value)
      (Form.declare sub' t constant x declared value) := by
  have hend (v : Node) (type : SourceType) :
      AgreesAt d whole
        (do
          report (.bound x type)
          modifyEnv (·.insert x type)
          return Node.declaration constant x declared type v)
        (do
          report (.bound x type)
          modifyEnv (·.insert x type)
          return Node.declaration constant x declared type v) :=
    agreesAt_bind (agreesAt_report _) fun _ =>
      agreesAt_bind (agreesAt_modifyEnv _) fun _ => agreesAt_pure _
  cases declared with
  | none =>
    refine agreesAt_bind (hsub _ hvalue) fun v => agreesAt_bind (agreesAt_typing _) fun a => ?_
    exact agreesAt_bind (agreesAt_pure _) fun type => hend v type
  | some u =>
    refine agreesAt_bind (agreesAt_modifyEnv _) fun _ => agreesAt_bind (hsub _ hvalue) fun v => ?_
    refine agreesAt_bind (agreesAt_typing _) fun a => ?_
    simp only
    split
    · exact agreesAt_bind (agreesAt_pure _) fun type => hend v type
    · exact agreesAt_bind (agreesAt_reject _ ht) fun type => hend v type

theorem agreesAt_declaration :
    AgreesAt d whole (Form.declaration sub t) (Form.declaration sub' t) := by
  unfold Form.declaration
  split
  · exact agreesAt_noMatch
  next constant rest hd =>
  have hrest := part_of_declarationShape? hd
  simp only
  split
  · exact agreesAt_reject _ ht
  split
  · exact agreesAt_reject _ ht
  next before value hc =>
  obtain ⟨hbefore, hvalue⟩ := part_of_cutAssignment hc
  have hbehind := (isInfix_of_behindName rest).trans hrest.isInfix
  have hbefore := hbefore.isInfix.trans (hbehind.trans ht)
  refine agreesAt_bind (agreesAt_ofExcept ((agreesIn_writtenType before).mono hbefore))
    fun declared => ?_
  exact agreesAt_atomically
    (agreesAt_declare hsub ht constant _ declared (hvalue.trans_isInfix hbehind))

omit hsub ht in
theorem agreesAt_target (hsub : ∀ u, Part u (stripParens t) → AgreesAt d whole (sub u) (sub' u))
    (ht : t <:+: whole) : AgreesAt d whole (Form.target sub t) (Form.target sub' t) := by
  unfold Form.target
  simp only
  split
  · exact agreesAt_pure _
  split
  · exact agreesAt_pure _
  · refine agreesAt_orReject _ ((stripParens_isInfix t).trans ht) ?_
    exact agreesAt_bind (agreesAt_memberParts hsub) fun _ => agreesAt_pure _

theorem agreesAt_assignment :
    AgreesAt d whole (Form.assignment sub t) (Form.assignment sub' t) := by
  unfold Form.assignment
  split
  · exact agreesAt_noMatch
  next before after hc =>
  obtain ⟨hbefore, hafter⟩ := part_of_cutAssignment hc
  have hstrip := hbefore.isInfix
  refine agreesAt_bind (agreesAt_target (fun u hu => hsub u ?_) (hstrip.trans ht)) fun x => ?_
  · exact hu.trans_isInfix ((stripParens_isInfix before).trans hstrip)
  refine agreesAt_bind (hsub _ hafter) fun v => ?_
  exact agreesAt_bind (agreesAt_typing _) fun _ => agreesAt_pure _

omit hsub in
theorem agreesAt_literal : AgreesAt d whole (Form.literal t) (Form.literal t) := by
  refine agreesAt_or (agreesAt_or ?_ ?_) ?_
  · unfold Form.number
    split
    · exact agreesAt_noMatch
    split
    · exact agreesAt_pure _
    · exact agreesAt_reject _ ht
  · unfold Form.string
    split
    · exact agreesAt_noMatch
    · exact agreesAt_pure _
  · unfold Form.reference
    split
    · exact agreesAt_noMatch
    split
    · exact agreesAt_pure _
    · exact agreesAt_reject _ ht

omit hsub ht in
theorem agreesAt_var : AgreesAt d whole (Form.var t) (Form.var t) := by
  unfold Form.var
  split
  · exact agreesAt_pure _
  · exact agreesAt_noMatch

theorem agreesAt_forms :
    AgreesAt d whole (Parser.choice (forms sub) t) (Parser.choice (forms sub') t) := by
  refine agreesAt_or (agreesAt_inForm _ (agreesAt_call hsub ht)) ?_
  refine agreesAt_or (agreesAt_literal ht) ?_
  refine agreesAt_or (agreesAt_inForm _ (agreesAt_list hsub)) ?_
  refine agreesAt_or (agreesAt_inForm _ (agreesAt_lambda hsub ht)) ?_
  refine agreesAt_or (agreesAt_inForm _ (agreesAt_short hsub)) ?_
  refine agreesAt_or (agreesAt_inForm _ (agreesAt_member hsub)) ?_
  refine agreesAt_or (agreesAt_inForm _ (agreesAt_giveBack hsub)) ?_
  refine agreesAt_or (agreesAt_inForm _ (agreesAt_declaration hsub ht)) ?_
  refine agreesAt_or (agreesAt_inForm _ (agreesAt_assignment hsub ht)) ?_
  exact agreesAt_or agreesAt_var agreesAt_noMatch

end

/-- Reading an expression asks about parts of the text without its outer
    parentheses, one level deeper. -/
theorem agreesAt_expressionWith {d : Nat} {t whole : Text} {sub sub' : Parser Node}
    (hsub : ∀ u, Part u (stripParens t) → AgreesAt (d + 1) whole (sub u) (sub' u))
    (ht : stripParens t <:+: whole) :
    AgreesAt d whole (expressionWith sub t) (expressionWith sub' t) := by
  unfold expressionWith
  simp only
  split
  · exact agreesAt_reject _ ht
  refine agreesAt_bind (agreesAt_orReject _ ht (agreesAt_nested (agreesAt_forms hsub ht)))
    fun n => ?_
  exact agreesAt_bind (agreesAt_reportFormed _ _) fun _ => agreesAt_pure n

/-- A run of the parser beside itself: it stays at its depth, and what it rejects is a
    stretch of the text. -/
theorem agreesAt_expression (d : Nat) (t : Text) :
    AgreesAt d t (expression t) (expression t) := by
  induction t using expression.induct generalizing d with
  | case1 t ih =>
    have hall : ∀ u, Part u (stripParens t) →
        AgreesAt (d + 1) t (expression u) (expression u) := by
      intro u hu
      have hu := hu.trans_isInfix (stripParens_isInfix t)
      have hagrees : AgreesAt (d + 1) u (expression u) (expression u) := ih u hu.2 (d + 1)
      exact hagrees.mono hu.isInfix
    rw [expression_eq]
    exact agreesAt_expressionWith hall (stripParens_isInfix t)

end UnionTyping
