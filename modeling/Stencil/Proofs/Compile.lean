import Mathlib.Data.List.Forall2
import Stencil.Node.Compile
import Stencil.Proofs.Computation

/-!
# Compiling in two settings

Compiling leaves open in which computation included templates are obtained. Computations of two
kinds can be compared as soon as results, failures and sequences are comparable; then the bodies
that some nodes are compiled to in the two settings correspond whenever the templates do that the
loaders give for the identifiers in those nodes.
-/

namespace Stencil

/-- Two outcomes are the same failure or related results. -/
def SameOutcome {α β : Type} (P : α → β → Prop) : Except Error α → Except Error β → Prop
  | .ok a, .ok b => P a b
  | .error e, .error f => e = f
  | _, _ => False

theorem sameOutcome_eq {α : Type} {x y : Except Error α} : SameOutcome Eq x y ↔ x = y := by
  cases x <;> cases y <;> simp [SameOutcome]

theorem SameOutcome.isOk_eq {α β : Type} {P : α → β → Prop} {x : Except Error α}
    {y : Except Error β} (h : SameOutcome P x y) : x.isOk = y.isOk := by
  cases x <;> cases y
  · rfl
  · exact h.elim
  · exact h.elim
  · rfl

theorem SameOutcome.exists_eq_ok {α β : Type} {P : α → β → Prop} {a : α} {y : Except Error β}
    (h : SameOutcome P (.ok a) y) : ∃ b, y = .ok b ∧ P a b := by
  cases y with
  | error e => exact h.elim
  | ok b => exact ⟨b, rfl, h⟩

theorem sameOutcome_self {α : Type} {P : α → α → Prop} {x : Except Error α}
    (h : ∀ a, x = .ok a → P a a) : SameOutcome P x x := by
  cases x with
  | error e => exact rfl
  | ok a => exact h a rfl

/-- A way to compare computations of two kinds, given a relation of their results. -/
structure Comparison (m n : Type → Type) [Monad m] [Monad n] [MonadExcept Error m]
    [MonadExcept Error n] where
  rel {α β : Type} : (α → β → Prop) → m α → n β → Prop
  rel_pure {α β : Type} {P : α → β → Prop} {a : α} {b : β} : P a b → rel P (pure a) (pure b)
  rel_throw {α β : Type} {P : α → β → Prop} (e : Error) : rel P (throw e) (throw e)
  rel_bind {α β γ δ : Type} {P : α → β → Prop} {Q : γ → δ → Prop} {x : m α} {y : n β}
    {f : α → m γ} {g : β → n δ} : rel P x y → (∀ a b, P a b → rel Q (f a) (g b)) →
      rel Q (x >>= f) (y >>= g)
  rel_map {α β γ δ : Type} {P : α → β → Prop} {Q : γ → δ → Prop} {x : m α} {y : n β}
    {f : α → γ} {g : β → δ} : rel P x y → (∀ a b, P a b → Q (f a) (g b)) →
      rel Q (f <$> x) (g <$> y)

/-- Outcomes are compared as they are. -/
def outcomes : Comparison (Except Error) (Except Error) where
  rel P x y := SameOutcome P x y
  rel_pure h := h
  rel_throw _ := rfl
  rel_bind := by
    intro _ _ _ _ P Q x y f g hxy hfg
    cases x <;> cases y
    · exact hxy
    · exact hxy.elim
    · exact hxy.elim
    · exact hfg _ _ hxy
  rel_map := by
    intro _ _ _ _ P Q x y f g hxy hfg
    cases x <;> cases y
    · exact hxy
    · exact hxy.elim
    · exact hxy.elim
    · exact hfg _ _ hxy

namespace Comparison

variable {m n : Type → Type} [Monad m] [Monad n] [MonadExcept Error m] [MonadExcept Error n]

theorem rel_ofExcept (C : Comparison m n) {α β : Type} {P : α → β → Prop} {x : Except Error α}
    {y : Except Error β} (h : SameOutcome P x y) : C.rel P (ofExcept x) (ofExcept y) := by
  cases x with
  | ok a =>
    cases y with
    | ok b => exact C.rel_pure h
    | error e => exact h.elim
  | error e =>
    cases y with
    | ok b => exact h.elim
    | error f =>
      cases h
      exact C.rel_throw e

/-- An outcome is comparable with itself, and results are its results. -/
theorem rel_ofExcept_self (C : Comparison m n) {α : Type} (x : Except Error α) :
    C.rel (fun a b ↦ x = .ok a ∧ a = b) (ofExcept x) (ofExcept x) :=
  C.rel_ofExcept (sameOutcome_self fun _ ha ↦ ⟨ha, rfl⟩)

end Comparison

/-- Two registries under which every name means the same and files are found alike. -/
structure Registry.Alike (r q : Registry) : Prop where
  tags : q.tag? = r.tag?
  filters : q.filter? = r.filter?
  extensions : q.extension? = r.extension?
  roots : q.roots = r.roots
  fileAccess : q.fileAccess = r.fileAccess

namespace Registry.Alike

variable {r q : Registry}

theorem refl (r : Registry) : r.Alike r := ⟨rfl, rfl, rfl, rfl, rfl⟩

theorem tagKind (h : r.Alike q) : q.tagKind? = r.tagKind? := by
  funext name
  rw [tagKind?, tagKind?, h.tags]

theorem instruction (h : r.Alike q) (tag : RawTag) : tag.instruction q = tag.instruction r := by
  funext head span body
  rw [RawTag.instruction, RawTag.instruction, h.filters, h.extensions]

end Registry.Alike

/-- Compiling under a registry respects a relation of instructions and one of templates: equal
simple instructions are related, and the relation passes from bodies to the tags with these bodies
and from templates to their inclusions. -/
structure Respects (r : Registry) (I : Instruction → Instruction → Prop)
    (T : Template → Template → Prop) : Prop where
  text (s : String) : I (.text s) (.text s)
  output (e : BoundExpression) : I (.output e) (.output e)
  simple (tag : SimpleTag) (arguments : List BoundExpression) {a b : Option Body} :
    Option.Rel (List.Forall₂ I) a b → I (.simple tag arguments a) (.simple tag arguments b)
  raw {name : String} {tag : RawTag} : r.tag? name = some (.raw tag) →
    ∀ (head : TagHead) (span : Span) {a b : Option Body}, Option.Rel (List.Forall₂ I) a b →
      SameOutcome I (tag.instruction r head span a) (tag.instruction r head span b)
  included {t u : Template} : T t u →
    I (.included t.identity t.serial t.body) (.included u.identity u.serial u.body)

private theorem eq_of_rel_eq {a b : Option Body} (h : Option.Rel (List.Forall₂ Eq) a b) :
    a = b := by
  rw [List.forall₂_eq_eq_eq] at h
  cases h <;> simp_all

/-- Compiling respects equality of instructions if related templates are included alike. -/
theorem respects_eq (r : Registry) {T : Template → Template → Prop}
    (hT : ∀ t u, T t u → t.identity = u.identity ∧ t.serial = u.serial ∧ t.body = u.body) :
    Respects r Eq T where
  text _ := rfl
  output _ := rfl
  simple tag arguments a b h := by rw [eq_of_rel_eq h]
  raw := by
    intro _ tag _ head span a b h
    rw [eq_of_rel_eq h]
    exact sameOutcome_eq.mpr rfl
  included := by
    intro t u h
    obtain ⟨hidentity, hserial, hbody⟩ := hT t u h
    rw [hidentity, hserial, hbody]

/-- Compiling respects equality of instructions if equal templates are included. -/
theorem respects_self (r : Registry) : Respects r Eq Eq :=
  respects_eq r fun _ _ h ↦ h ▸ ⟨rfl, rfl, rfl⟩

namespace Node

/-! ### What is included -/

mutual

/-- The identifiers that compiling a node loads, in this order. -/
def loads (r : Registry) : Node → List String
  | .text _ => []
  | .output .. => []
  | .tag head kind children _ =>
    match r.tag? head.name, kind with
    | some .inclusion, _ => head.literal?.toList
    | some (.simple _), .block => loadsOf r children
    | some (.raw _), .block => loadsOf r children
    | _, _ => []

/-- The identifiers that compiling some nodes loads, in this order. -/
def loadsOf (r : Registry) : List Node → List String
  | [] => []
  | node :: rest => node.loads r ++ loadsOf r rest

end

mutual

private theorem exists_head_of_mem_loads {r : Registry} {identifier : String} :
    (node : Node) → identifier ∈ node.loads r →
      ∃ head ∈ node.heads, head.literal? = some identifier
  | .text _, h => nomatch h
  | .output .., h => nomatch h
  | .tag head kind children _, h => by
    unfold loads at h
    rw [heads]
    have hbelow (hin : identifier ∈ loadsOf r children) :
        ∃ other ∈ head :: headsOf children, other.literal? = some identifier :=
      (exists_head_of_mem_loadsOf children hin).imp fun _ ↦
        .imp_left (List.mem_cons_of_mem _)
    split at h
    · exact ⟨head, List.mem_cons_self, Option.mem_toList.mp h⟩
    · exact hbelow h
    · exact hbelow h
    · cases h

/-- What some nodes include is named by one of their tags. -/
theorem exists_head_of_mem_loadsOf {r : Registry} {identifier : String} :
    (nodes : List Node) → identifier ∈ loadsOf r nodes →
      ∃ head ∈ headsOf nodes, head.literal? = some identifier
  | [], h => nomatch h
  | node :: rest, h => by
    rcases List.mem_append.mp h with hnode | hrest
    · exact (exists_head_of_mem_loads node hnode).imp fun _ ↦
        .imp_left (List.mem_append_left _)
    · exact (exists_head_of_mem_loadsOf rest hrest).imp fun _ ↦
        .imp_left (List.mem_append_right _)

end

section Comparing

variable {m n : Type → Type} [Monad m] [Monad n] [MonadExcept Error m] [MonadExcept Error n]
  (C : Comparison m n) {r q : Registry}
  {I : Instruction → Instruction → Prop} {T : Template → Template → Prop}
  {load : String → m Template} {other : String → n Template}

private theorem rel_bodyOf (kind : TagKind) {x : m Body} {y : n Body}
    (h : kind = .block → C.rel (List.Forall₂ I) x y) :
    C.rel (Option.Rel (List.Forall₂ I)) (bodyOf kind x) (bodyOf kind y) := by
  cases kind with
  | block => exact C.rel_map (h rfl) fun _ _ hab ↦ .some hab
  | standalone => exact C.rel_pure .none

mutual

private theorem rel_compile (hI : Respects r I T) (hr : r.Alike q) : (node : Node) →
    (∀ identifier ∈ node.loads r, C.rel T (load identifier) (other identifier)) →
    C.rel I (compile r load node) (compile q other node)
  | .text s, _ => C.rel_pure (hI.text s)
  | .output e span, _ => by
    simp only [compile, hr.filters]
    exact C.rel_map (C.rel_ofExcept_self _) fun _ _ h ↦ h.2 ▸ hI.output _
  | .tag head kind children span, hload => by
    have hchildren := fun h ↦ rel_compileAll_of_loads hI hr children h
    simp only [loads] at hload
    simp only [compile, hr.tags, hr.filters, hr.instruction]
    split
    · exact C.rel_throw _
    · next handler htag =>
      have hbody := rel_bodyOf C kind fun hkind ↦ hchildren (by simpa [htag, hkind] using hload)
      refine C.rel_bind (C.rel_ofExcept_self _) ?_
      rintro arguments _ ⟨-, rfl⟩
      exact C.rel_bind hbody fun a b hab ↦ C.rel_pure (hI.simple _ arguments hab)
    · next handler htag =>
      have hbody := rel_bodyOf C kind fun hkind ↦ hchildren (by simpa [htag, hkind] using hload)
      exact C.rel_bind hbody fun a b hab ↦ C.rel_ofExcept (hI.raw htag head span hab)
    · next htag =>
      split
      · exact C.rel_throw _
      · next identifier hliteral =>
        have hown := hload identifier (by simp [htag, hliteral])
        exact C.rel_bind hown fun t u htu ↦ C.rel_pure (hI.included htu)

/-- Bodies compiled in two settings correspond if the loaders give corresponding templates for what
the nodes include. -/
theorem rel_compileAll_of_loads (hI : Respects r I T) (hr : r.Alike q) :
    (nodes : List Node) →
    (∀ identifier ∈ loadsOf r nodes, C.rel T (load identifier) (other identifier)) →
    C.rel (List.Forall₂ I) (compileAll r load nodes) (compileAll q other nodes)
  | [], _ => C.rel_pure .nil
  | node :: rest, hload => by
    have hnode := rel_compile hI hr node fun i hi ↦ hload i (List.mem_append_left _ hi)
    have hrest := rel_compileAll_of_loads hI hr rest fun i hi ↦
      hload i (List.mem_append_right _ hi)
    simp only [compileAll]
    exact C.rel_bind hnode fun i j hij ↦ C.rel_bind hrest fun a b hab ↦
      C.rel_pure (.cons hij hab)

end

/-- Bodies compiled in two settings correspond if the loaders give corresponding templates for the
identifiers in the nodes. -/
theorem rel_compileAll (hI : Respects r I T) (hr : r.Alike q) (nodes : List Node)
    (hload : ∀ head ∈ headsOf nodes, ∀ identifier, head.literal? = some identifier →
      C.rel T (load identifier) (other identifier)) :
    C.rel (List.Forall₂ I) (compileAll r load nodes) (compileAll q other nodes) := by
  refine rel_compileAll_of_loads C hI hr nodes fun identifier h ↦ ?_
  obtain ⟨head, hhead, hliteral⟩ := exists_head_of_mem_loadsOf nodes h
  exact hload head hhead identifier hliteral

end Comparing

end Node

end Stencil
