import Mathlib
import Stencil.Proofs.Balance
import Stencil.Proofs.Concatenation
import Stencil.Proofs.Squeezing

/-!
# Spaceless blocks in spaceless blocks

The blanks between the HTML tags of a rendered body need to be removed once only: a block that does so
and stands directly in another such block can be replaced by what is in it. The template compiles as
before and renders as before.
-/

namespace Stencil

/-- Whether a tag is written as the one that removes the blanks between HTML tags. -/
def TagHead.IsSpaceless (head : TagHead) : Prop := head.name = "spaceless" ∧ head.arguments = []

namespace Node

/-- One step of taking nested blocks apart. A spaceless block that stands directly in another one is
replaced by what is in it, or literal texts that stand next to each other are joined. The step can be
made among other nodes and within a tag. -/
inductive Unwraps : List Node → List Node → Prop
  | nested {outer inner : TagHead} (houter : outer.IsSpaceless) (hinner : inner.IsSpaceless)
      (before body after : List Node) (span own : Span) :
      Unwraps [.tag outer .block (before ++ .tag inner .block body own :: after) span]
        [.tag outer .block (before ++ body ++ after) span]
  | join (s t : String) : Unwraps [.text s, .text t] [.text (s ++ t)]
  | among {a b : List Node} (before after : List Node) :
      Unwraps a b → Unwraps (before ++ a ++ after) (before ++ b ++ after)
  | within {a b : List Node} (head : TagHead) (kind : TagKind) (span : Span) :
      Unwraps a b → Unwraps [.tag head kind a span] [.tag head kind b span]

end Node

/-! ### What the nodes mean -/

namespace Interpretation

/-- The output of two steps, one after the other. -/
def followedBy (x y : Interpretation String) : Interpretation String := do
  return (← x) ++ (← y)

/-- The output of a step without the blanks between its HTML tags. -/
def squeezed (x : Interpretation String) : Interpretation String := do
  return String.ofList (RawTag.squeeze (← x).toList)

/-- Squeezing some output squeezes a part of it that was squeezed already. -/
theorem squeezed_followedBy_squeezed (x y z : Interpretation String) :
    squeezed (x.followedBy ((squeezed y).followedBy z)) =
      squeezed (x.followedBy (y.followedBy z)) := by
  have hsqueeze (a b c : String) :
      RawTag.squeeze (a ++ (String.ofList (RawTag.squeeze b.toList) ++ c)).toList =
        RawTag.squeeze (a ++ (b ++ c)).toList := by
    simpa using RawTag.squeeze_append_squeeze_append a.toList b.toList c.toList
  simp only [squeezed, followedBy, bind_assoc, pure_bind, hsqueeze]

variable {r : Registry} {place : Place} {inclusion : String → Interpretation String}
  {head : TagHead}

theorem nodes_append (a b : List Node) : nodes r inclusion (a ++ b) =
    (nodes r inclusion a).followedBy (nodes r inclusion b) := by
  induction a with
  | nil => simp only [List.nil_append, nodes, followedBy, pure_bind, String.empty_append, bind_pure]
  | cons first rest ih =>
    simp only [List.cons_append, nodes, ih, followedBy, bind_assoc, pure_bind, String.append_assoc]

theorem nodes_singleton (n : Node) : nodes r inclusion [n] = node r inclusion n := by
  simp [nodes]

/-- Where a simple tag has the name of the spaceless tag, its handler is asked without arguments. -/
theorem tag_of_simple {simple : SimpleTag} (h : head.IsSpaceless)
    (hsimple : Fields.find? "spaceless" r.simpleTags = some simple) (body : Interpretation String) :
    tag r place inclusion head body = (simple.call []).elim body pure := by
  obtain ⟨hname, harguments⟩ := h
  unfold tag
  rw [hname, hsimple, harguments]
  cases hcall : simple.call [] <;> simp [expressionTexts, hcall]

/-- Otherwise the rendered body is squeezed. -/
theorem tag_of_isSpaceless (h : head.IsSpaceless)
    (hsimple : Fields.find? "spaceless" r.simpleTags = none) (body : Interpretation String) :
    tag r place inclusion head body = squeezed body := by
  obtain ⟨hname, harguments⟩ := h
  unfold tag
  rw [hname, hsimple]
  simp [spaceless, harguments, squeezed]

/-- A step of taking blocks apart does not change what the nodes mean. -/
theorem nodes_eq_of_unwraps {a b : List Node} (h : Node.Unwraps a b) :
    nodes r inclusion a = nodes r inclusion b := by
  induction h with
  | @nested outer inner houter hinner before body after span own =>
    have hnested : nodes r inclusion (before ++ .tag inner .block body own :: after) =
        (nodes r inclusion before).followedBy
          ((tag r own.start.place inclusion inner (nodes r inclusion body)).followedBy
            (nodes r inclusion after)) := by
      rw [nodes_append, ← List.singleton_append, nodes_append, nodes_singleton, node, bodyOf]
    have hplain : nodes r inclusion (before ++ body ++ after) =
        (nodes r inclusion before).followedBy
          ((nodes r inclusion body).followedBy (nodes r inclusion after)) := by
      rw [List.append_assoc, nodes_append, nodes_append]
    rw [nodes_singleton, nodes_singleton, node, node, bodyOf, bodyOf, hnested, hplain]
    cases hsimple : Fields.find? "spaceless" r.simpleTags with
    | some simple =>
      simp only [tag_of_simple houter hsimple, tag_of_simple hinner hsimple]
      cases simple.call [] <;> rfl
    | none =>
      simp only [tag_of_isSpaceless houter hsimple, tag_of_isSpaceless hinner hsimple]
      exact squeezed_followedBy_squeezed _ _ _
  | join s t => simp [nodes, node]
  | among before after _ ih => rw [nodes_append, nodes_append, nodes_append, nodes_append, ih]
  | within head kind span _ ih => rw [nodes_singleton, nodes_singleton, node, node, ih]

end Interpretation

/-! ### What the nodes are compiled to -/

namespace RawTag

/-- A raw tag that can be compiled with any body if it can be compiled with one. -/
def IgnoresBody (tag : RawTag) : Prop :=
  ∀ (input : RawTagInput) (body : Option Body),
    (tag.compile input).isOk = (tag.compile { input with body }).isOk

theorem ignoresBody_set : set.IgnoresBody := fun _ _ ↦ rfl

theorem ignoresBody_autoescape : autoescape.IgnoresBody := by
  intro input body
  unfold autoescape
  dsimp only [RawTagInput.arguments]
  split <;> rfl

/-- The spaceless tag can be compiled exactly without arguments. -/
theorem isOk_compile_spaceless (input : RawTagInput) :
    (spaceless.compile input).isOk = true ↔ input.arguments = [] := by
  unfold spaceless
  dsimp only
  split
  · next harguments => exact ⟨fun _ ↦ harguments, fun _ ↦ rfl⟩
  · next harguments => exact ⟨fun h ↦ Bool.noConfusion h, fun h ↦ absurd h harguments⟩

theorem ignoresBody_spaceless : spaceless.IgnoresBody := by
  intro input body
  rw [Bool.eq_iff_iff, isOk_compile_spaceless, isOk_compile_spaceless]
  rfl

theorem ignoresBody_filter : filter.IgnoresBody := by
  intro input body
  unfold filter
  dsimp only
  split
  · rfl
  · cases hchain : input.filterChain input.head.raw with
    | error e =>
      have hother : { input with body }.filterChain input.head.raw = .error e := hchain
      rw [hother]
      rfl
    | ok chain =>
      have hother : { input with body }.filterChain input.head.raw = .ok chain := hchain
      rw [hother]
      rfl

/-- Whether a built-in tag can be compiled does not depend on its body. -/
theorem ignoresBody_of_mem_builtins {entry : String × RawTag} (h : entry ∈ builtins) :
    entry.2.IgnoresBody := by
  simp only [builtins, List.mem_cons, List.not_mem_nil, or_false] at h
  rcases h with rfl | rfl | rfl | rfl
  · exact ignoresBody_set
  · exact ignoresBody_autoescape
  · exact ignoresBody_spaceless
  · exact ignoresBody_filter

end RawTag

/-- Where the raw tags are the built-in ones, only a simple tag can take the place of the spaceless
tag. -/
theorem Registry.tag?_spaceless {r : Registry} (hr : r.HasBuiltinTags) :
    (∃ simple, r.tag? "spaceless" = some (.simple simple)) ∨
      r.tag? "spaceless" = some (.raw RawTag.spaceless) := by
  unfold tag?
  cases Fields.find? "spaceless" r.simpleTags with
  | some simple => exact .inl ⟨simple, rfl⟩
  | none =>
    rw [hr]
    exact .inr rfl

namespace Node

variable {r : Registry} {load : String → Expansion Template} {stack : IncludeStack}
  {a b : List Node} {head : TagHead} {kind : TagKind} {span : Span}

/-- Whether nodes can be compiled. -/
def Compiles (r : Registry) (load : String → Expansion Template) (stack : IncludeStack)
    (nodes : List Node) : Prop :=
  ∃ body, compileAll r load nodes stack = .ok body

theorem compiles_append :
    Compiles r load stack (a ++ b) ↔ Compiles r load stack a ∧ Compiles r load stack b := by
  unfold Compiles
  constructor
  · rintro ⟨_, h⟩
    obtain ⟨first, second, ha, hb, -⟩ := compileAll_append.mp h
    exact ⟨⟨first, ha⟩, ⟨second, hb⟩⟩
  · rintro ⟨⟨first, ha⟩, ⟨second, hb⟩⟩
    exact ⟨_, compileAll_append.mpr ⟨first, second, ha, hb, rfl⟩⟩

theorem compiles_singleton {node : Node} :
    Compiles r load stack [node] ↔ ∃ i, compile r load node stack = .ok i := by
  unfold Compiles
  constructor
  · rintro ⟨_, h⟩
    obtain ⟨i, -, hi, -, -⟩ := Expansion.compileAll_cons.mp h
    exact ⟨i, hi⟩
  · rintro ⟨i, hi⟩
    exact ⟨_, Expansion.compileAll_cons.mpr ⟨i, [], hi, rfl, rfl⟩⟩

/-- A block has a body when what is in it can be compiled. -/
theorem exists_bodyOf_block :
    (∃ own, bodyOf .block (compileAll r load a) stack = .ok own) ↔ Compiles r load stack a := by
  unfold Compiles
  constructor
  · rintro ⟨own, hown⟩
    obtain ⟨body, hbody, -⟩ := Computation.map_eq_ok.mp hown
    exact ⟨body, hbody⟩
  · rintro ⟨body, hbody⟩
    exact ⟨some body, Computation.map_eq_ok.mpr ⟨body, hbody, rfl⟩⟩

/-- A simple tag can be compiled when its arguments can be bound and it has a body. -/
theorem exists_compile_simple {tag : SimpleTag} (htag : r.tag? head.name = some (.simple tag)) :
    (∃ i, compile r load (.tag head kind a span) stack = .ok i) ↔
      (∃ bound, BoundExpression.ofTexts r.filter? span.start.place head.arguments = .ok bound) ∧
        ∃ own, bodyOf kind (compileAll r load a) stack = .ok own := by
  rw [compile, htag]
  constructor
  · rintro ⟨i, h⟩
    obtain ⟨bound, hbound, h⟩ := Computation.bind_eq_ok.mp h
    obtain ⟨own, hown, -⟩ := Computation.bind_eq_ok.mp h
    exact ⟨⟨bound, Expansion.eq_ok_of_ofExcept hbound⟩, own, hown⟩
  · rintro ⟨⟨bound, hbound⟩, own, hown⟩
    rw [hbound]
    exact ⟨_, Computation.bind_eq_ok.mpr ⟨own, hown, rfl⟩⟩

/-- A raw tag that can be compiled with any body can be compiled when it has one. -/
theorem exists_compile_raw {tag : RawTag} (htag : r.tag? head.name = some (.raw tag))
    (hignores : tag.IgnoresBody) :
    (∃ i, compile r load (.tag head kind a span) stack = .ok i) ↔
      (tag.compile ⟨head, none, span, r.filter?, r.extension?⟩).isOk = true ∧
        ∃ own, bodyOf kind (compileAll r load a) stack = .ok own := by
  rw [compile, htag]
  constructor
  · rintro ⟨i, h⟩
    obtain ⟨own, hown, h⟩ := Computation.bind_eq_ok.mp h
    obtain ⟨f, hf, -⟩ := Computation.map_eq_ok.mp (Expansion.eq_ok_of_ofExcept h)
    refine ⟨?_, own, hown⟩
    rw [hignores _ own, hf]
    rfl
  · rintro ⟨hok, own, hown⟩
    rw [hignores _ own] at hok
    obtain ⟨f, hf⟩ := Computation.exists_eq_ok_of_isOk hok
    have hinstruction : tag.instruction r head span own = .ok (.fragment f) :=
      Computation.map_eq_ok.mpr ⟨f, hf, rfl⟩
    refine ⟨.fragment f, Computation.bind_eq_ok.mpr ⟨own, hown, ?_⟩⟩
    dsimp only
    rw [hinstruction]
    rfl

/-- A tag with other nodes in it can be compiled if these can. -/
theorem compiles_tag (hr : r.HasBuiltinTags)
    (hab : Compiles r load stack a → Compiles r load stack b)
    (h : Compiles r load stack [.tag head kind a span]) :
    Compiles r load stack [.tag head kind b span] := by
  rw [compiles_singleton] at h ⊢
  have hbody : (∃ own, bodyOf kind (compileAll r load a) stack = .ok own) →
      ∃ own, bodyOf kind (compileAll r load b) stack = .ok own := by
    cases kind with
    | standalone => exact fun _ ↦ ⟨none, rfl⟩
    | block =>
      rw [exists_bodyOf_block, exists_bodyOf_block]
      exact hab
  cases htag : r.tag? head.name with
  | none =>
    rw [compile, htag] at h
    exact absurd h (by rintro ⟨_, ⟨⟩⟩)
  | some entry =>
    cases entry with
    | simple handler =>
      rw [exists_compile_simple htag] at h ⊢
      exact ⟨h.1, hbody h.2⟩
    | raw handler =>
      obtain ⟨-, hraw⟩ := Registry.tag?_eq_raw htag
      rw [hr] at hraw
      have hignores := RawTag.ignoresBody_of_mem_builtins
        (Fields.mem_ofList (Fields.mem_of_find? hraw))
      rw [exists_compile_raw htag hignores] at h ⊢
      exact ⟨h.1, hbody h.2⟩
    | inclusion =>
      rw [compile, htag] at h ⊢
      exact h

/-- A spaceless block can be compiled exactly when what is in it can. -/
theorem compiles_spaceless (hr : r.HasBuiltinTags) (hhead : head.IsSpaceless) :
    Compiles r load stack [.tag head .block a span] ↔ Compiles r load stack a := by
  obtain ⟨hname, harguments⟩ := hhead
  rw [compiles_singleton, ← exists_bodyOf_block]
  rcases Registry.tag?_spaceless hr with ⟨simple, htag⟩ | htag <;> rw [← hname] at htag
  · rw [exists_compile_simple htag, harguments]
    exact ⟨And.right, fun h ↦ ⟨⟨[], rfl⟩, h⟩⟩
  · rw [exists_compile_raw htag RawTag.ignoresBody_spaceless, RawTag.isOk_compile_spaceless]
    exact ⟨And.right, fun h ↦ ⟨harguments, h⟩⟩

/-- A step of taking blocks apart does not change whether the nodes can be compiled. -/
theorem compiles_iff_of_unwraps (hr : r.HasBuiltinTags) (h : Unwraps a b) :
    Compiles r load stack a ↔ Compiles r load stack b := by
  induction h with
  | @nested outer inner houter hinner before body after span own =>
    rw [compiles_spaceless hr houter, compiles_spaceless hr houter, compiles_append,
      ← List.singleton_append, compiles_append, compiles_spaceless hr hinner, List.append_assoc,
      compiles_append, compiles_append]
  | join s t => exact ⟨fun _ ↦ ⟨_, rfl⟩, fun _ ↦ ⟨_, rfl⟩⟩
  | among before after _ ih =>
    rw [compiles_append, compiles_append, compiles_append, compiles_append, ih]
  | within head kind span _ ih => exact ⟨compiles_tag hr ih.mp, compiles_tag hr ih.mpr⟩

mutual

private theorem unplaced_unplaced : (node : Node) → node.unplaced.unplaced = node.unplaced
  | .text _ => rfl
  | .output .. => rfl
  | .tag _ _ children _ => by
    rw [unplaced, unplaced, unplacedAll_unplacedAll children]

/-- Nodes without their places have no places any more. -/
theorem unplacedAll_unplacedAll : (nodes : List Node) →
    unplacedAll (unplacedAll nodes) = unplacedAll nodes
  | [] => rfl
  | node :: rest => by
    rw [unplacedAll, unplacedAll, unplaced_unplaced node, unplacedAll_unplacedAll rest]

end

/-- Whether nodes can be compiled does not depend on their places. -/
theorem compiles_unplacedAll (hr : r.HasBuiltinTags) (nodes : List Node) :
    Compiles r load stack (unplacedAll nodes) ↔ Compiles r load stack nodes := by
  have hsame := unplacedAll_unplacedAll nodes
  constructor
  · rintro ⟨body, hbody⟩
    exact ⟨body, compileAll_of_unplaced hr (unplacedAll nodes) nodes hsame.symm body hbody⟩
  · rintro ⟨body, hbody⟩
    exact ⟨body, compileAll_of_unplaced hr nodes (unplacedAll nodes) hsame body hbody⟩

end Node

/-! ### Loading texts -/

section Loading

variable {r : Registry} {fs : FileSystem} {e : Engine} {text : String} {nodes : List Node}

/-- The template of a text is what its nodes are compiled to. -/
theorem Expansion.ofIdentity_source (hnodes : Node.parse r.tagKind? text = .ok nodes) :
    ofIdentity r fs (.source text) .empty =
      (Node.compileAll r (file r fs) nodes .empty).map fun body ↦ ⟨.source text, 0, r, body⟩ := by
  have hbody : body r (file r fs) (.ok text) ⟨[.source text]⟩ =
      body r (file r fs) (.ok text) .empty :=
    body_congr fun _ _ _ _ identifier _ ↦ file_congr identifier fun _ ↦ rfl
  change (body r (file r fs) (.ok text) ⟨[.source text]⟩).map _ = _
  have hparsed : body r (file r fs) (.ok text) .empty =
      Node.compileAll r (file r fs) nodes .empty := by
    change (ofExcept (Node.parse r.tagKind? text) >>= Node.compileAll r (file r fs)) .empty = _
    rw [hnodes]
    rfl
  rw [hbody, hparsed]

/-- What loading a text ends with is what the nodes of the text are compiled to. -/
theorem Engine.sameOutcome_load (hr : r.HasBuiltinTags) (hregistry : e.registry = r)
    (hs : e.loading.Sound r r fs) (hnodes : Node.parse r.tagKind? text = .ok nodes) :
    SameOutcome (fun t body ↦ t.registry = r ∧ Instruction.runAll t.body = Instruction.runAll body)
      (e.load fs (.text text)).1 (Node.compileAll r (Expansion.file r fs) nodes .empty) := by
  obtain ⟨hleads, hexplains⟩ := Load.rel_source (.refl r) hr.isPure text e.loading rfl hs
  rw [Load.template_source_eq] at hleads hexplains
  subst hregistry
  change Loading.Leads _ _ _ _ (e.load fs (.text text)).2 at hleads
  change Explains _ _ (e.load fs (.text text)) at hexplains
  rcases hload : e.load fs (.text text) with ⟨error | t, after⟩ <;> rw [hload] at hleads hexplains
  all_goals
    have hstack : after.stack = .empty := hleads.stack
  · have herror : Expansion.ofIdentity e.registry fs (.source text) .empty = .error error :=
      hstack ▸ hexplains
    rw [Expansion.ofIdentity_source hnodes] at herror
    cases hbody : Node.compileAll e.registry (Expansion.file e.registry fs) nodes .empty with
    | error other =>
      rw [hbody] at herror
      cases herror
      exact rfl
    | ok body =>
      rw [hbody] at herror
      cases herror
  · obtain ⟨u, hu, hagrees⟩ := hexplains .empty (.inl hstack.symm)
    rw [Expansion.ofIdentity_source hnodes] at hu
    obtain ⟨body, hbody, rfl⟩ := Computation.map_eq_ok.mp hu
    rw [hbody]
    exact ⟨hagrees.registry, Instruction.runAll_eq_of_same _ _ hagrees.body⟩

end Loading

section Unwrapped

variable {r : Registry} {a b : List Node}

/-- Taking blocks apart does not change whether nodes can be compiled. -/
theorem Node.compiles_iff_of_unwrapped {load : String → Expansion Template} {stack : IncludeStack}
    (hr : r.HasBuiltinTags) (h : Relation.ReflTransGen Unwraps a b) :
    Compiles r load stack a ↔ Compiles r load stack b := by
  induction h with
  | refl => rfl
  | tail _ hstep ih => exact ih.trans (compiles_iff_of_unwraps hr hstep)

/-- Taking blocks apart does not change what nodes mean. -/
theorem Interpretation.nodes_eq_of_unwrapped {inclusion : String → Interpretation String}
    (h : Relation.ReflTransGen Node.Unwraps a b) : nodes r inclusion a = nodes r inclusion b := by
  induction h with
  | refl => rfl
  | tail _ hstep ih => exact ih.trans (nodes_eq_of_unwraps hstep)

/-- Bodies that nodes are compiled to, before and after blocks were taken apart, write the same. -/
theorem Node.exists_writes_of_unwrapped (hr : r.HasBuiltinTags) {fs : FileSystem}
    (h : Relation.ReflTransGen Unwraps (unplacedAll a) (unplacedAll b)) {body other : Body}
    (hbody : compileAll r (Expansion.file r fs) a .empty = .ok body)
    (hother : compileAll r (Expansion.file r fs) b .empty = .ok other) :
    ∃ x, Writes x (Instruction.runAll body) ∧ Writes x (Instruction.runAll other) := by
  have hwrites {nodes : List Node} {compiled : Body}
      (hcompiled : compileAll r (Expansion.file r fs) nodes .empty = .ok compiled) :
      Writes (Interpretation.nodes r (Interpretation.file r fs (fs.size + 2)) (unplacedAll nodes))
        (Instruction.runAll compiled) := by
    have hunplaced := compileAll_of_unplaced hr nodes (unplacedAll nodes)
      (unplacedAll_unplacedAll nodes) compiled hcompiled
    exact writes_nodes hr (fun _ _ ht ↦ writes_file hr (Nat.le_refl _) ht) _ _ hunplaced
  refine ⟨_, hwrites hbody, ?_⟩
  rw [Interpretation.nodes_eq_of_unwrapped h]
  exact hwrites hother

/-- Two texts whose nodes are the same when nested spaceless blocks are taken apart load alike, and
what they are loaded to renders alike. -/
theorem Engine.load_unwrapped (hr : r.HasBuiltinTags) {fs : FileSystem} {e e' : Engine}
    (he : e.registry = r) (hs : e.loading.Sound r r fs) (he' : e'.registry = r)
    (hs' : e'.loading.Sound r r fs) {s s' : String} (hnodes : Node.parse r.tagKind? s = .ok a)
    (hnodes' : Node.parse r.tagKind? s' = .ok b)
    (h : Relation.ReflTransGen Node.Unwraps (Node.unplacedAll a) (Node.unplacedAll b)) :
    (e.load fs (.text s)).1.isOk = (e'.load fs (.text s')).1.isOk ∧
      ∀ t t', (e.load fs (.text s)).1 = .ok t → (e'.load fs (.text s')).1 = .ok t' →
        ∀ scope calls, t.render scope calls = t'.render scope calls := by
  have hload := sameOutcome_load hr he hs hnodes
  have hload' := sameOutcome_load hr he' hs' hnodes'
  have hcompiles : Node.Compiles r (Expansion.file r fs) .empty a ↔
      Node.Compiles r (Expansion.file r fs) .empty b :=
    (Node.compiles_unplacedAll hr a).symm.trans
      ((Node.compiles_iff_of_unwrapped hr h).trans (Node.compiles_unplacedAll hr b))
  refine ⟨?_, fun t t' ht ht' scope calls ↦ ?_⟩
  · rw [hload.isOk_eq, hload'.isOk_eq, Bool.eq_iff_iff, Computation.isOk_iff,
      Computation.isOk_iff]
    exact hcompiles
  · rw [ht] at hload
    rw [ht'] at hload'
    obtain ⟨body, hbody, hregistry, hrun⟩ := hload.exists_eq_ok
    obtain ⟨other, hother, hregistry', hrun'⟩ := hload'.exists_eq_ok
    obtain ⟨x, hx, hx'⟩ := Node.exists_writes_of_unwrapped hr h hbody hother
    rw [← hrun] at hx
    rw [← hrun'] at hx'
    exact Template.render_eq_of_writes (hregistry.trans hregistry'.symm) hx hx' scope calls

end Unwrapped

/-- A text that can be loaded is compiled to what it is loaded to, under every policy. -/
theorem Engine.compile_of_load {e : Engine} {fs : FileSystem} {text : String} {t : Template}
    (h : (e.load fs (.text text)).1 = .ok t) : (e.compile fs text).1 = .ok t := by
  change (e.answer fs (.text text)).1 = .ok t
  rw [answer_eq]
  rcases hload : e.load fs (.text text) with ⟨error | u, after⟩ <;> rw [hload] at h
  · cases h
  · cases h
    rfl

/-- Squeezing is a normal form. It takes out the blanks that stand between a `>` and the next `<`, and
nothing else; a part of a text can be squeezed before the text is, so that squeezing again changes
nothing. Therefore, where the raw tags are the built-in ones, a spaceless block that stands directly
in another one can be replaced by what is in it: if the nodes of a text become those of another text
in this way, up to places, then either both texts can be loaded or neither can, and what they are
compiled to renders the same. -/
theorem RawTag.squeeze_normal :
    (∀ cs, squeeze cs = Text.without (Text.BetweenTags [] cs) cs) ∧
      (∀ a b c, squeeze (a ++ squeeze b ++ c) = squeeze (a ++ b ++ c)) ∧
      (∀ cs, squeeze (squeeze cs) = squeeze cs) ∧
      ∀ (r : Registry) (fs : FileSystem) (serial serial' : Nat) (earlier earlier' : List Request)
        (s s' : String) (nodes nodes' : List Node),
        let e := (Engine.fresh r serial).served fs earlier
        let e' := (Engine.fresh r serial').served fs earlier'
        r.HasBuiltinTags → Node.parse r.tagKind? s = .ok nodes →
        Node.parse r.tagKind? s' = .ok nodes' →
        Relation.ReflTransGen Node.Unwraps (Node.unplacedAll nodes) (Node.unplacedAll nodes') →
        (e.load fs (.text s)).1.isOk = (e'.load fs (.text s')).1.isOk ∧
        ∀ t t', (e.load fs (.text s)).1 = .ok t → (e'.load fs (.text s')).1 = .ok t' →
          (e.compile fs s).1 = .ok t ∧ (e'.compile fs s').1 = .ok t' ∧
            ∀ scope calls, t.render scope calls = t'.render scope calls := by
  refine ⟨squeeze_eq, squeeze_append_squeeze_append, squeeze_squeeze, ?_⟩
  intro r fs serial serial' earlier earlier' s s' nodes nodes' e e' hr hnodes hnodes' h
  have hserved (serial : Nat) (requests : List Request) :
      ((Engine.fresh r serial).served fs requests).registry = r ∧
        ((Engine.fresh r serial).served fs requests).loading.Sound r r fs :=
    Engine.sound_served rfl (Engine.sound_empty serial r.cache) (.refl r) hr.isPure requests
  obtain ⟨he, hs⟩ := hserved serial earlier
  obtain ⟨he', hs'⟩ := hserved serial' earlier'
  obtain ⟨hok, hrender⟩ := Engine.load_unwrapped hr he hs he' hs' hnodes hnodes' h
  exact ⟨hok, fun t t' ht ht' ↦ ⟨Engine.compile_of_load ht, Engine.compile_of_load ht',
    hrender t t' ht ht'⟩⟩

/-- A spaceless block in another one, with blanks at all its ends. -/
def nestedSpaceless : String :=
  "\x7b% spaceless %\x7d<a> \x7b% spaceless %\x7d <b>\x7b\x7b x \x7d\x7d</b> \x7b% endspaceless %\x7d </a>\x7b% endspaceless %\x7d"

/-- The same text with the inner block replaced by what is in it. -/
def unnestedSpaceless : String :=
  "\x7b% spaceless %\x7d<a>  <b>\x7b\x7b x \x7d\x7d</b>  </a>\x7b% endspaceless %\x7d"

private def placeless : Span := ⟨.origin, .origin⟩

private theorem parse_nestedSpaceless :
    (Node.parse Registry.strictDefault.tagKind? nestedSpaceless).map Node.unplacedAll =
      .ok [.tag ⟨"spaceless", ""⟩ .block [.text "<a> ",
        .tag ⟨"spaceless", ""⟩ .block
          [.text " <b>", .output ⟨.named "x", []⟩ placeless, .text "</b> "] placeless,
        .text " </a>"] placeless] := by
  cbv

private theorem parse_unnestedSpaceless :
    (Node.parse Registry.strictDefault.tagKind? unnestedSpaceless).map Node.unplacedAll =
      .ok [.tag ⟨"spaceless", ""⟩ .block
        [.text "<a>  <b>", .output ⟨.named "x", []⟩ placeless, .text "</b>  </a>"] placeless] := by
  cbv

/-- The inner block is replaced by three nodes, and then the texts at both seams are joined. -/
private theorem unwraps_nestedSpaceless : Relation.ReflTransGen Node.Unwraps
    [.tag ⟨"spaceless", ""⟩ .block [.text "<a> ",
      .tag ⟨"spaceless", ""⟩ .block
        [.text " <b>", .output ⟨.named "x", []⟩ placeless, .text "</b> "] placeless,
      .text " </a>"] placeless]
    [.tag ⟨"spaceless", ""⟩ .block
      [.text "<a>  <b>", .output ⟨.named "x", []⟩ placeless, .text "</b>  </a>"] placeless] := by
  have hhead : TagHead.IsSpaceless ⟨"spaceless", ""⟩ := ⟨rfl, rfl⟩
  refine .head (.nested hhead hhead [.text "<a> "] _ [.text " </a>"] _ _) ?_
  refine .head (.within _ _ _ (.among [] [.output ⟨.named "x", []⟩ placeless, .text "</b> ",
    .text " </a>"] (.join "<a> " " <b>"))) ?_
  exact .single (.within _ _ _ (.among [.text "<a>  <b>", .output ⟨.named "x", []⟩ placeless] []
    (.join "</b> " " </a>")))

/-- A block whose rendering has blanks at both of its ends. -/
theorem RawTag.squeeze_normal_nested :
    let e := (Engine.fresh .strictDefault 1).served ⟨[], []⟩ []
    ∃ t t', (e.compile ⟨[], []⟩ nestedSpaceless).1 = .ok t ∧
      (e.compile ⟨[], []⟩ unnestedSpaceless).1 = .ok t' ∧
      ∀ scope calls, t.render scope calls = t'.render scope calls := by
  intro e
  obtain ⟨-, -, -, hload⟩ := squeeze_normal
  obtain ⟨nodes, hnodes, hown⟩ := Computation.map_eq_ok.mp parse_nestedSpaceless
  obtain ⟨nodes', hnodes', hown'⟩ := Computation.map_eq_ok.mp parse_unnestedSpaceless
  obtain ⟨hok, hrender⟩ := hload .strictDefault ⟨[], []⟩ 1 1 [] [] _ _ nodes nodes'
    Registry.hasBuiltinTags_strictDefault hnodes hnodes'
    (by rw [hown, hown']; exact unwraps_nestedSpaceless)
  have hnested : (e.load ⟨[], []⟩ (.text nestedSpaceless)).1.isOk = true := by decide +kernel
  obtain ⟨t, ht⟩ := Computation.exists_eq_ok_of_isOk hnested
  obtain ⟨t', ht'⟩ := Computation.exists_eq_ok_of_isOk (hok.symm.trans hnested)
  exact ⟨t, t', hrender t t' ht ht'⟩

end Stencil
