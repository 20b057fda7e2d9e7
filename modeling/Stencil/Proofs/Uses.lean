import Stencil.Proofs.Inclusion

/-!
# What a template uses

The expressions and the filter calls in the nodes of a template, and in the files that it includes.
Files may have changed, and templates may have come from a cache, since a template was compiled; so
what went into it is told by a derivation, in which every body is compiled again from a text that
there was, with the templates that it included supplied one after the other.
-/

namespace Stencil

/-! ### Uses -/

/-- The names of the scope that the arguments of a filter call refer to. -/
def FilterCall.names (call : FilterCall) : List String := call.arguments.flatMap Expr.names

/-- The names of the scope that an expression with filters refers to. -/
def Expression.names (e : Expression) : List String :=
  e.base.names ++ e.filters.flatMap FilterCall.names

/-- What a template takes values from, and sends them through. -/
inductive Use where
  /-- The expression of an output. -/
  | output (e : Expression)
  /-- An argument of a simple tag. -/
  | argument (e : Expression)
  /-- A name that is bound, and the expression that it is bound to. -/
  | binding (name : String) (e : Expression)
  /-- The filter chain for a captured body. -/
  | chain (calls : List FilterCall)

namespace Use

/-- The filter calls in a use. -/
def calls : Use → List FilterCall
  | .output e => e.filters
  | .argument e => e.filters
  | .binding _ e => e.filters
  | .chain calls => calls

/-- The names of the scope that a use refers to. -/
def names : Use → List String
  | .output e => e.names
  | .argument e => e.names
  | .binding _ e => e.names
  | .chain calls => calls.flatMap FilterCall.names

/-- The names of the filters that a use calls. -/
def filterNames (use : Use) : List String := use.calls.map FilterCall.name

end Use

namespace TagHead

/-- What a simple tag uses. -/
def simpleUses (head : TagHead) : List Use :=
  head.arguments.flatMap fun text ↦ ((Expression.parse text).toOption.map .argument).toList

/-- What a built-in raw tag uses, its body apart. -/
def rawUses (head : TagHead) : List Use :=
  if head.name = "set" then
    match RawTag.splitBinding? head.raw.toList with
    | some (left, right) =>
      ((Expression.parse (String.ofList (Text.trim right))).toOption.map
        (.binding (String.ofList (Text.trim left)))).toList
    | none => []
  else if head.name = "filter" then
    ((Expression.parseChain head.raw).toOption.map .chain).toList
  else []

end TagHead

namespace Node

mutual

/-- What a node uses, without what is included. -/
def uses (r : Registry) : Node → List Use
  | .text _ => []
  | .output e _ => [.output e]
  | .tag head kind children _ =>
    match r.tag? head.name with
    | some (.simple _) => head.simpleUses ++ if kind = .block then usesOf r children else []
    | some (.raw _) => head.rawUses ++ if kind = .block then usesOf r children else []
    | _ => []

/-- What some nodes use, without what is included. -/
def usesOf (r : Registry) : List Node → List Use
  | [] => []
  | node :: rest => node.uses r ++ usesOf r rest

end

end Node

/-! ### Supplied inclusions -/

/-- A template that is supplied for an inclusion: the identifier that it is included by, and what it
uses. -/
structure Supplied where
  identifier : String
  template : Template
  uses : List Use

/-- A step of compiling with supplied templates. -/
abbrev Supply (α : Type) := ExceptT Error (StateM (List Supplied)) α

/-- The next supplied template, which must be the one for the identifier. -/
def Supply.next (identifier : String) : Supply Template := do
  match ← get with
  | first :: rest =>
    if first.identifier = identifier then
      set rest
      return first.template
    else throw (.circularInclude identifier)
  | [] => throw (.circularInclude identifier)

namespace Supply

@[simp] theorem next_cons (first : Supplied) (rest : List Supplied) :
    next first.identifier (first :: rest) = (.ok first.template, rest) := by
  simp [next]

/-- From supplied templates with a property a step leaves such ones, and its results have another
property. -/
def Ensures {α : Type} (G : Supplied → Prop) (x : Supply α) (Q : α → Prop) : Prop :=
  ∀ supply a rest, (∀ u ∈ supply, G u) → x supply = (.ok a, rest) → Q a ∧ ∀ u ∈ rest, G u

namespace Ensures

variable {α β : Type} {G : Supplied → Prop} {x : Supply α} {f : α → Supply β} {P : α → Prop}
  {Q : β → Prop}

theorem pure {a : α} (h : P a) : Ensures G (pure a) P := by
  intro supply _ _ hsupply heq
  cases heq
  exact ⟨h, hsupply⟩

theorem throw (e : Error) : Ensures G (throw e) P := by
  intro supply _ _ _ heq
  cases heq

theorem ofExcept (y : Except Error α) : Ensures G (ofExcept y) (y = .ok ·) := by
  cases y with
  | error e => exact throw e
  | ok a => exact pure rfl

theorem bind (hx : Ensures G x P) (hf : ∀ a, P a → Ensures G (f a) Q) : Ensures G (x >>= f) Q := by
  intro supply b rest hsupply heq
  obtain ⟨a, middle, ha, hb⟩ := Computation.bind_apply_eq_ok.mp heq
  obtain ⟨hP, hmiddle⟩ := hx supply a middle hsupply ha
  exact hf a hP middle b rest hmiddle hb

theorem map {g : α → β} (hx : Ensures G x P) (hg : ∀ a, P a → Q (g a)) : Ensures G (g <$> x) Q := by
  rw [map_eq_pure_bind]
  exact hx.bind fun a ha ↦ pure (hg a ha)

theorem imp {R : α → Prop} (hx : Ensures G x P) (h : ∀ a, P a → R a) : Ensures G x R := by
  intro supply a rest hsupply heq
  exact (hx supply a rest hsupply heq).imp_left (h a)

/-- What is supplied next has the property. -/
theorem next (identifier : String) :
    Ensures G (next identifier) fun t ↦ ∃ u, G u ∧ u.template = t := by
  intro supply t rest hsupply heq
  cases supply with
  | nil =>
    simp only [Supply.next, Computation.bind_apply, Computation.get_apply,
      Computation.throw_apply] at heq
    cases heq
  | cons first later =>
    rw [List.forall_mem_cons] at hsupply
    by_cases hfirst : first.identifier = identifier
    · subst hfirst
      rw [next_cons] at heq
      cases heq
      exact ⟨⟨first, hsupply.1, rfl⟩, hsupply.2⟩
    · simp only [Supply.next, Computation.bind_apply, Computation.get_apply, if_neg hfirst,
        Computation.throw_apply] at heq
      cases heq

end Ensures

end Supply

/-- An identifier leads to the file of a template. -/
def Supplied.Leads (u : Supplied) (r : Registry) (fs : FileSystem) : Prop :=
  ∃ path, fs.resolve u.identifier r.roots = .ok path ∧
    u.template.identity.same (.file path) = true

/-- A template is what the text behind its identity was compiled to, in files of the given kind. For
its inclusions the text was compiled with templates under the same registry, which came about in the
same way, and to whose files the identifiers of the inclusions led. It uses what is used in the text
and by these templates. -/
inductive Template.CompiledFrom (files : FileSystem → Prop) : Template → List Use → Prop
  | intro {t : Template} {fs : FileSystem} {nodes : List Node} {supply : List Supplied} :
    files fs → fs.nodesOf t.registry t.identity = .ok nodes →
    (∀ u ∈ supply, u.Leads t.registry fs ∧ u.template.registry = t.registry) →
    (∀ u ∈ supply, CompiledFrom files u.template u.uses) →
    Node.compileAll t.registry Supply.next nodes supply = (.ok t.body, []) →
    CompiledFrom files t (Node.usesOf t.registry nodes ++ supply.flatMap Supplied.uses)

/-- A body is what some nodes were compiled to under a registry, while the files were of the given
kind. The templates for their inclusions were compiled from such files, and the identifiers led to
them. The body uses what is used in the nodes and by these templates. -/
inductive Body.CompiledFrom (files : FileSystem → Prop) (r : Registry) (nodes : List Node)
    (body : Body) : List Use → Prop
  | intro {fs : FileSystem} {supply : List Supplied} :
    files fs → (∀ u ∈ supply, u.Leads r fs ∧ u.template.registry = r) →
    (∀ u ∈ supply, u.template.CompiledFrom files u.uses) →
    Node.compileAll r Supply.next nodes supply = (.ok body, []) →
    CompiledFrom files r nodes body (Node.usesOf r nodes ++ supply.flatMap Supplied.uses)

namespace Template

/-- A template stands for a failure: it renders the description of an error. -/
def IsFallback (t : Template) : Prop := ∃ e : Error, t.body = [.text e.block]

/-- A template uses what it was compiled from, or nothing if it stands for a failure. -/
def Uses (files : FileSystem → Prop) (t : Template) (uses : List Use) : Prop :=
  t.CompiledFrom files uses ∨ t.IsFallback ∧ uses = []

/-- What was compiled from some files was compiled from more files. -/
theorem CompiledFrom.mono {files more : FileSystem → Prop} {t : Template} {uses : List Use}
    (h : t.CompiledFrom files uses) (hmore : ∀ fs, files fs → more fs) :
    t.CompiledFrom more uses := by
  induction h with
  | intro hfiles hnodes hleads _ hbody ih =>
    exact .intro (hmore _ hfiles) hnodes hleads ih hbody

end Template

end Stencil
