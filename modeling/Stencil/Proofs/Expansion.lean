import Stencil.Proofs.Compile
import Stencil.Proofs.Pending
import Stencil.Proofs.Session

/-!
# Compiling without a cache

An expansion compiles every inclusion anew. What comes out is a function of the files and of which
templates are being compiled; a depth that suffices does not show in it.
-/

namespace Stencil

/-- Compiling without a cache, which depends on the templates that are being compiled. -/
abbrev Expansion (α : Type) := ReaderT IncludeStack (Except Error) α

/-- The text behind an identity. -/
def FileSystem.textOf (fs : FileSystem) : Identity → Except Error String
  | .source text => .ok text
  | .file path => (fs.readText path).mapError .file
  | .unresolved identifier => .error (.circularInclude identifier)

/-- An identity is one that a template can have: the path of one leads to a file. -/
def FileSystem.Holds (fs : FileSystem) : Identity → Prop
  | .source _ => True
  | .file path => ∃ content, fs.entry path = .ok (.file content)
  | .unresolved _ => False

namespace FileSystem

variable {fs : FileSystem}

theorem holds_of_textOf {identity : Identity} {text : String}
    (h : fs.textOf identity = .ok text) : fs.Holds identity := by
  cases identity with
  | source source => exact trivial
  | file path =>
    have hread : fs.readText path = .ok text := Computation.mapError_eq_ok.mp h
    exact entry_of_readText hread
  | unresolved identifier => cases h

/-- There is the same text behind identities that are the same. -/
theorem textOf_of_same {i j : Identity} (h : i.same j = true) (hi : fs.Holds i)
    (hj : fs.Holds j) : fs.textOf i = fs.textOf j := by
  cases i <;> cases j <;> simp only [Identity.same, beq_iff_eq, Bool.false_eq_true] at h
  · rw [h]
  · obtain ⟨a, ha⟩ := hi
    obtain ⟨b, hb⟩ := hj
    rw [textOf, textOf, readText_of_same h ha hb]
  · exact hi.elim

end FileSystem

/-- Reading a file gives the text behind its path, and leaves a note. -/
theorem Load.readText_apply (fs : FileSystem) (path : Path) (s : Loading) :
    readText fs path s =
      (fs.textOf (.file path), { s with events := .read path :: s.events }) := by
  simp [readText, FileSystem.textOf]

namespace Expansion

section Definitions

variable (r : Registry) (fs : FileSystem)

/-- Compile a text. -/
def body (load : String → Expansion Template) (text : Except Error String) : Expansion Body := do
  let source ← ofExcept text
  let nodes ← ofExcept (Node.parse r.tagKind? source)
  Node.compileAll r load nodes

/-- Compile the text of a template, unless the template is being compiled already. -/
def template (load : String → Expansion Template) (identity : Identity)
    (text : Except Error String) : Expansion Template := fun stack ↦
  (stack.enter identity).bind fun inner ↦
    (body r load text inner).map fun body ↦ ⟨identity, 0, r, body⟩

/-- The template in the file of an identifier, with a bound on how deep inclusions may nest. -/
def fileWithin : Nat → String → Expansion Template
  | 0, identifier => throw (.circularInclude identifier)
  | depth + 1, identifier =>
    if r.fileAccess then do
      let path ← ofExcept (fs.resolve identifier r.roots)
      template r (fileWithin depth) (.file path) (fs.textOf (.file path))
    else throw .filesUnavailable

/-- The template in the file of an identifier. -/
def file (identifier : String) : Expansion Template := fileWithin r fs (fs.size + 2) identifier

/-- The template of an identity. -/
def ofIdentity (identity : Identity) : Expansion Template :=
  template r (file r fs) identity (fs.textOf identity)

/-- The template that is asked for. -/
def ofRequest : Request → Expansion Template
  | .text source => ofIdentity r fs (.source source)
  | .file identifier => file r fs identifier

end Definitions

theorem eq_ok_of_ofExcept {α : Type} {x : Except Error α} {s : IncludeStack} {a : α}
    (h : (ofExcept x : Expansion α) s = .ok a) : x = .ok a := by
  cases x with
  | error e => cases h
  | ok b => exact h

/-- Nodes are compiled one after the other. -/
theorem compileAll_cons {r : Registry} {load : String → Expansion Template} {s : IncludeStack}
    {node : Node} {rest : List Node} {b : Body} :
    Node.compileAll r load (node :: rest) s = .ok b ↔ ∃ i later,
      Node.compile r load node s = .ok i ∧ Node.compileAll r load rest s = .ok later ∧
        i :: later = b := by
  rw [Node.compileAll]
  constructor
  · intro h
    obtain ⟨i, hi, h⟩ := Computation.bind_eq_ok.mp h
    obtain ⟨later, hlater, h⟩ := Computation.bind_eq_ok.mp h
    exact ⟨i, later, hi, hlater, Except.ok.inj h⟩
  · rintro ⟨i, later, hi, hlater, rfl⟩
    exact Computation.bind_eq_ok.mpr ⟨i, hi, Computation.bind_eq_ok.mpr ⟨later, hlater, rfl⟩⟩

/-- A body comes out when there is a text that is parsed to nodes that are compiled. -/
theorem body_eq_ok {r : Registry} {load : String → Expansion Template}
    {text : Except Error String} {s : IncludeStack} {b : Body} :
    body r load text s = .ok b ↔ ∃ source nodes, text = .ok source ∧
      Node.parse r.tagKind? source = .ok nodes ∧ Node.compileAll r load nodes s = .ok b := by
  cases text with
  | error e => exact ⟨nofun, nofun⟩
  | ok source =>
    change (ofExcept (Node.parse r.tagKind? source) >>= Node.compileAll r load) s = .ok b ↔ _
    constructor
    · intro h
      obtain ⟨nodes, hnodes, hbody⟩ := Computation.bind_eq_ok.mp h
      exact ⟨source, nodes, rfl, eq_ok_of_ofExcept hnodes, hbody⟩
    · rintro ⟨_, nodes, ⟨⟩, hnodes, hbody⟩
      rw [hnodes]
      exact hbody

/-- A template comes out when it is not being compiled yet and its text compiles below it. -/
theorem template_eq_ok {r : Registry} {load : String → Expansion Template} {identity : Identity}
    {text : Except Error String} {s : IncludeStack} {u : Template} :
    template r load identity text s = .ok u ↔ s.contains identity = false ∧
      ∃ b, body r load text ⟨identity :: s.identities⟩ = .ok b ∧ ⟨identity, 0, r, b⟩ = u := by
  unfold template
  rw [Computation.bind_eq_ok]
  constructor
  · rintro ⟨inner, hinner, h⟩
    obtain ⟨hfresh, rfl⟩ := IncludeStack.enter_eq_ok.mp hinner
    exact ⟨hfresh, Computation.map_eq_ok.mp h⟩
  · rintro ⟨hfresh, h⟩
    exact ⟨_, IncludeStack.enter_eq_ok.mpr ⟨hfresh, rfl⟩, Computation.map_eq_ok.mpr h⟩

/-! ### Congruence -/

/-- The outcomes for two stacks are compared. -/
def comparison (s t : IncludeStack) : Comparison Expansion Expansion where
  rel P x y := SameOutcome P (x s) (y t)
  rel_pure h := h
  rel_throw _ := rfl
  rel_bind := by
    intro _ _ _ _ P Q x y f g hxy hfg
    change SameOutcome Q ((x s).bind fun a ↦ f a s) ((y t).bind fun b ↦ g b t)
    cases hx : x s <;> cases hy : y t <;> rw [hx, hy] at hxy
    · exact hxy
    · exact hxy.elim
    · exact hxy.elim
    · exact hfg _ _ hxy
  rel_map := by
    intro _ _ _ _ P Q x y f g hxy hfg
    change SameOutcome Q ((x s).map f) ((y t).map g)
    cases hx : x s <;> cases hy : y t <;> rw [hx, hy] at hxy
    · exact hxy
    · exact hxy.elim
    · exact hxy.elim
    · exact hfg _ _ hxy

variable {r : Registry} {fs : FileSystem} {load other : String → Expansion Template}
  {s t : IncludeStack}

private theorem compileAll_congr {nodes : List Node}
    (h : ∀ identifier ∈ Node.literalsOf nodes, load identifier s = other identifier t) :
    Node.compileAll r load nodes s = Node.compileAll r other nodes t := by
  have hload : ∀ head ∈ Node.headsOf nodes, ∀ identifier, head.literal? = some identifier →
      SameOutcome Eq (load identifier s) (other identifier t) := by
    intro head hhead identifier hliteral
    exact sameOutcome_eq.mpr (h identifier (List.mem_filterMap.mpr ⟨head, hhead, hliteral⟩))
  have hrel : SameOutcome (List.Forall₂ Eq) (Node.compileAll r load nodes s)
      (Node.compileAll r other nodes t) :=
    Node.rel_compileAll (comparison s t) (respects_self r) (.refl r) nodes hload
  rw [List.forall₂_eq_eq_eq] at hrel
  exact sameOutcome_eq.mp hrel

/-- A text is compiled alike with two loaders that agree on the names in it. -/
theorem body_congr {text : Except Error String}
    (h : ∀ source nodes, text = .ok source → Node.parse r.tagKind? source = .ok nodes →
      ∀ identifier ∈ Node.literalsOf nodes, load identifier s = other identifier t) :
    body r load text s = body r other text t := by
  cases text with
  | error e => rfl
  | ok source =>
    change (ofExcept (Node.parse r.tagKind? source) >>= Node.compileAll r load) s =
      (ofExcept (Node.parse r.tagKind? source) >>= Node.compileAll r other) t
    cases hnodes : Node.parse r.tagKind? source with
    | error e => rfl
    | ok nodes => exact compileAll_congr (h source nodes rfl hnodes)

/-- A template is compiled alike under stacks of which both or none hold it. -/
theorem template_congr {identity : Identity} {text : Except Error String}
    (hst : s.contains identity = t.contains identity)
    (h : ∀ inner outer source nodes, s.enter identity = .ok inner → t.enter identity = .ok outer →
      text = .ok source → Node.parse r.tagKind? source = .ok nodes →
      ∀ identifier ∈ Node.literalsOf nodes, load identifier inner = other identifier outer) :
    template r load identity text s = template r other identity text t := by
  cases hs : s.contains identity with
  | true =>
    have ht := hst ▸ hs
    simp only [template, IncludeStack.enter, hs, ht, if_true]
    rfl
  | false =>
    have ht := hst ▸ hs
    have hinner := IncludeStack.enter_eq_ok.mpr ⟨hs, rfl⟩
    have houter := IncludeStack.enter_eq_ok.mpr ⟨ht, rfl⟩
    have hbody := body_congr fun source nodes ↦ h _ _ source nodes hinner houter
    simp only [template, hinner, houter, Except.bind, hbody]

/-- Depths that suffice give the same template under stacks that hold the same files. -/
theorem fileWithin_congr (depth depth' : Nat) {identifier : String}
    (hst : ∀ path, s.contains (.file path) = t.contains (.file path))
    (hs : fs.Suffices r s identifier depth) (ht : fs.Suffices r t identifier depth') :
    fileWithin r fs depth identifier s = fileWithin r fs depth' identifier t := by
  induction depth generalizing depth' identifier s t with
  | zero => exact (FileSystem.not_suffices_zero hs).elim
  | succ depth ih =>
    cases depth' with
    | zero => exact (FileSystem.not_suffices_zero ht).elim
    | succ depth' =>
      rw [fileWithin, fileWithin]
      split
      · cases hpath : fs.resolve identifier r.roots with
        | error e => rfl
        | ok path =>
          change template r (fileWithin r fs depth) (.file path) _ s =
            template r (fileWithin r fs depth') (.file path) _ t
          apply template_congr (hst path)
          intro inner outer source nodes hinner houter htext hnodes other hmem
          have hread : fs.readText path = .ok source := Computation.mapError_eq_ok.mp htext
          apply ih
          · obtain ⟨-, rfl⟩ := IncludeStack.enter_eq_ok.mp hinner
            obtain ⟨-, rfl⟩ := IncludeStack.enter_eq_ok.mp houter
            intro p
            have hp := hst p
            simp only [IncludeStack.contains_cons, hp]
          · exact hs.of_enter hpath hinner hread hnodes hmem
          · exact ht.of_enter hpath houter hread hnodes hmem
      · rfl

/-- Every depth that suffices gives the template in the file of a name. -/
theorem fileWithin_eq {depth : Nat} {identifier : String}
    (h : fs.Suffices r s identifier depth) :
    fileWithin r fs depth identifier s = file r fs identifier s := by
  unfold file
  exact fileWithin_congr depth (fs.size + 2) (fun _ ↦ rfl) h (.inl (Nat.le_refl _))

/-- The template in a file depends only on which files the stack holds. -/
theorem file_congr (identifier : String)
    (hst : ∀ path, s.contains (.file path) = t.contains (.file path)) :
    file r fs identifier s = file r fs identifier t := by
  unfold file
  exact fileWithin_congr _ _ hst (.inl (Nat.le_refl _)) (.inl (Nat.le_refl _))

/-- The template in the file of a name is the one of the path that the name leads to. -/
theorem file_eq (identifier : String) :
    file r fs identifier =
      if r.fileAccess then do
        let path ← ofExcept (fs.resolve identifier r.roots)
        ofIdentity r fs (.file path)
      else throw .filesUnavailable := by
  have hdepth : fs.size + 2 = fs.size + 1 + 1 := rfl
  rw [file, hdepth, fileWithin]
  split
  · funext s
    cases hpath : fs.resolve identifier r.roots with
    | error e =>
      change Except.error e = Except.error e
      rfl
    | ok path =>
      change template r (fileWithin r fs (fs.size + 1)) (.file path) (fs.textOf (.file path)) s =
        template r (file r fs) (.file path) (fs.textOf (.file path)) s
      apply template_congr rfl
      intro inner outer source nodes hinner houter htext hnodes other hmem
      cases hinner.symm.trans houter
      have hread : fs.readText path = .ok source := Computation.mapError_eq_ok.mp htext
      have hsize : fs.Suffices r s identifier (fs.size + 1 + 1) := .inl (Nat.le_refl _)
      exact fileWithin_eq (hsize.of_enter hpath hinner hread hnodes hmem)
  · rfl

/-- There is a text behind the identity of every template. -/
theorem textOf_of_ofIdentity {i : Identity} {u : Template} (h : ofIdentity r fs i s = .ok u) :
    ∃ text, fs.textOf i = .ok text := by
  obtain ⟨-, b, hbody, -⟩ := template_eq_ok.mp h
  obtain ⟨text, -, htext, -⟩ := body_eq_ok.mp hbody
  exact ⟨text, htext⟩

/-- The templates of two identities that are the same have the same body, if there is the same text
behind both. -/
theorem ofIdentity_of_same {i j : Identity} {u : Template} (hij : i.same j = true)
    (htext : fs.textOf i = fs.textOf j) (h : ofIdentity r fs i s = .ok u) :
    ∃ v, ofIdentity r fs j s = .ok v ∧ v.identity = j ∧ v.body = u.body := by
  obtain ⟨hfresh, b, hbody, rfl⟩ := template_eq_ok.mp h
  have hfresh' := IncludeStack.contains_of_same hij ▸ hfresh
  have hother : body r (file r fs) (fs.textOf j) ⟨j :: s.identities⟩ = .ok b := by
    rw [← htext, ← hbody]
    apply body_congr
    intro _ _ _ _ identifier _
    apply file_congr
    intro k
    rw [IncludeStack.contains_cons, IncludeStack.contains_cons, Identity.same_of_same hij]
  exact ⟨⟨j, 0, r, b⟩, template_eq_ok.mpr ⟨hfresh', b, hother, rfl⟩, rfl, rfl⟩

end Expansion

end Stencil
