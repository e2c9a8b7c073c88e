/-
  UnionTyping/Proofs/Grammar/WellFormed.lean
  ==========================================
  **Well-formed trees** — what a printer or an evaluator may rely on in a valid
  answer, at every depth.  No node inside is the invalid one; every name that a
  tree reads, binds or assigns to can be read back as a name; every type that was
  written has names that can be written, and no variadic function without
  parameters; and a variadic lambda has a last parameter, for lists.

  Names and types enter a tree through a dozen readers, each with its own check,
  and a form has no check for the nodes inside it.  So the proof goes form by
  form: what the shape of the text says about the names, what the readers of
  types say about the types, and the nodes inside by induction over the reading.
-/
import UnionTyping.Proofs.Grammar.SealedText

namespace UnionTyping

open Text

/-! ### Well-formed trees -/

/-- The types of a head are those that were written; a result that was not
    written is the type of the body. -/
structure LambdaHead.WellFormed (h : LambdaHead) : Prop where
  generics : ∀ g ∈ h.generics, isName g = true
  params : CanonicalParameters h.params h.variadic
  result : h.explicit = true → SourceType.Canonical h.result

mutual

/-- Well-formed at every depth. -/
def Node.WellFormed : Node → Prop
  | .number _ | .string _ => True
  | .reference x => isName x = true
  | .list es => Node.AllWellFormed es
  | .lambda h body => h.WellFormed ∧ Node.AllWellFormed body
  | .var x => isName x = true
  | .call f as gs =>
    Node.WellFormed f ∧ Node.AllWellFormed as ∧ ∀ g ∈ gs, SourceType.Canonical g
  | .member p m => Node.WellFormed p ∧ isIdentifier m = true
  | .declaration _ x declared _ v =>
    isName x = true ∧ (∀ type, declared = some type → SourceType.Canonical type)
      ∧ Node.WellFormed v
  | .assignment t v => Target.WellFormed t ∧ Node.WellFormed v
  | .ret none => True
  | .ret (some v) => Node.WellFormed v
  | .invalid .. => False

def Target.WellFormed : Target → Prop
  | .var x | .dereference x => isName x = true
  | .member p m => Node.WellFormed p ∧ isIdentifier m = true

def Node.AllWellFormed : List Node → Prop
  | [] => True
  | n :: ns => Node.WellFormed n ∧ Node.AllWellFormed ns

end

/-! ### Names by shape -/

theorem isIdentifier_of_memberForm? {t parent : Text} {m : Name}
    (h : memberForm? t = some (parent, m)) : isIdentifier m = true := by
  obtain ⟨_, _, _, _, _, hm⟩ := eq_of_memberShape? (Option.filter_eq_some_iff.1 h).1
  exact hm

/-! ### One form -/

section

variable {R : Reading.Relation} {t : Text} {env env' : TypeEnv} {n : Node}

/-- The nodes that are read inside are well-formed. -/
def Reading.Relation.GivesWellFormed (R : Reading.Relation) : Prop :=
  ∀ u e m e', R u e m e' → m.WellFormed

theorem Chain.allWellFormed {ts : List Text} {ns : List Node} (h : Chain R ts env ns env')
    (hR : R.GivesWellFormed) : Node.AllWellFormed ns := by
  induction h with
  | nil => exact trivial
  | cons hn _ ih => exact ⟨hR _ _ _ _ hn, ih⟩

theorem Targeted.wellFormed {target : Target} (h : Targeted R t env target env')
    (hR : R.GivesWellFormed) : target.WellFormed := by
  cases h with
  | dereference hd =>
    obtain ⟨_, _, _, hn⟩ := eq_of_dereferenceShape? hd
    exact hn
  | var _ hn => exact hn
  | member _ _ hm hp => exact ⟨hR _ _ _ _ hp, isIdentifier_of_memberForm? hm⟩

theorem Formed.wellFormed {k : FormShape} (h : Formed R t env k n env') (hk : k.Fits t)
    (hR : R.GivesWellFormed) : n.WellFormed := by
  cases h with
  | call hf hg ha =>
    refine ⟨hR _ _ _ _ hf, ha.allWellFormed hR, fun g hmem => ?_⟩
    obtain ⟨u, _, hu⟩ := exists_of_forall₂_right (mapM_eq_ok_iff.1 hg) g hmem
    exact canonical_of_parseType hu
  | number | string | giveBack => exact trivial
  | reference hn => exact hn
  | list he => exact he.allWellFormed hR
  | lambda hg hp hd _ hc _ _ =>
    refine ⟨⟨isName_of_mem_genericNames hg, canonical_of_parseParameters hp, ?_⟩,
      hc.allWellFormed hR⟩
    intro hexplicit
    obtain ⟨type, rfl⟩ := Option.isSome_iff_exists.1 hexplicit
    exact canonical_of_declared hd type rfl
  | short hb _ => exact ⟨⟨nofun, ⟨nofun, nofun, nofun⟩, nofun⟩, hR _ _ _ _ hb, trivial⟩
  | member hp => exact ⟨hR _ _ _ _ hp, isIdentifier_of_memberForm? hk⟩
  | giveValue hv =>
    have hvalue := hR _ _ _ _ hv
    exact hvalue
  | declaration hname _ hd hv _ _ =>
    exact ⟨hname, canonical_of_writtenType hd, hR _ _ _ _ hv⟩
  | assignment htarget hv _ => exact ⟨htarget.wellFormed hR, hR _ _ _ _ hv⟩
  | var => exact hk

end

/-! ### Every reading -/

theorem wellFormed_of_reads {t : Text} {env env' : TypeEnv} {n : Node} (h : Reads t env n env') :
    n.WellFormed := by
  refine reads_induction (P := fun _ _ n _ => n.WellFormed) ?_ h
  intro t env k n env' hk hf
  exact hf.wellFormed (fits_of_formShape? hk) fun _ _ _ _ hr => hr.2

/-- A valid answer is a well-formed tree. -/
theorem wellFormed_of_read (t : Text) (env : TypeEnv) (n : Node)
    (h : (read t env).result = .ok n) (hv : n.isInvalid = false) : n.WellFormed :=
  wellFormed_of_reads (reads_of_read h hv)

/-- Generic names, an untyped variadic parameter, a dereferenced target, and a
    member of a call with a variadic function among its generics. -/
theorem wellFormed_of_read_variadic :
    ∃ n, (read "[T](r, x:T, more...):T ~> \x7b*r = x; f<(T...)=>T>(&x).m; x;\x7d".toList
        .initial).result = .ok n ∧ n.isInvalid = false
      ∧ n.text = ("[T](r:any[],x:T[],more:list[any[]]...):T[]~>".toList
          ++ "\x7b*r = x;f<(T[]...)=>T[]>(&x).m;x;\x7d".toList)
      ∧ n.WellFormed := by
  have h : (read "[T](r, x:T, more...):T ~> \x7b*r = x; f<(T...)=>T>(&x).m; x;\x7d".toList
      .initial).node?.map Node.text
      = some ("[T](r:any[],x:T[],more:list[any[]]...):T[]~>".toList
          ++ "\x7b*r = x;f<(T[]...)=>T[]>(&x).m;x;\x7d".toList) := by decide +kernel
  obtain ⟨n, hn, ht⟩ := Option.map_eq_some_iff.1 h
  obtain ⟨hr, hv⟩ := Reading.node?_eq_some_iff.1 hn
  exact ⟨n, hr, hv, ht, wellFormed_of_read _ .initial n hr hv⟩

end UnionTyping
