import Stencil.Proofs.Meaning
import Stencil.Proofs.Uses

/-!
# Rendering, rule by rule

Everything that a template does when it is rendered, with the built-in raw tags only, is made of a few
steps: it writes, evaluates, binds names, applies filter chains, reads the flag of escaping, captures
and switches this flag. What is true of these steps and passes to the larger ones is therefore true of
the whole template, as far as it is allowed for all that the template uses.
-/

namespace Stencil

/-! ### Captured and switched -/

namespace Render

/-- A captured action runs on an empty output; what it wrote is answered, and the output before is
put back. -/
theorem captured_apply (action : Render Unit) (s : RenderState) :
    captured action s =
      ((action { s with output := "" }).1.map fun _ ↦ (action { s with output := "" }).2.output,
        { (action { s with output := "" }).2 with output := s.output }) := by
  unfold captured
  simp only [Computation.bind_apply, Computation.get_apply, Computation.modify_apply,
    Computation.lift_run_apply, Computation.ofExcept_apply]
  rcases action { s with output := "" } with ⟨_ | _, after⟩ <;> rfl

/-- An action runs with the flag of escaping switched, which is put back. -/
theorem withAutoescape_apply (flag : Bool) (action : Render Unit) (s : RenderState) :
    withAutoescape flag action s =
      ((action { s with autoescape := flag }).1,
        { (action { s with autoescape := flag }).2 with autoescape := s.autoescape }) := by
  unfold withAutoescape autoescape setAutoescape
  simp only [Computation.bind_apply, Computation.get_apply, Computation.modify_apply,
    Computation.pure_apply, Computation.lift_run_apply, Computation.ofExcept_apply]

end Render

/-! ### Rules -/

/-- The expression of a use. -/
def Use.expression? : Use → Option Expression
  | .output e => some e
  | .argument e => some e
  | .binding _ e => some e
  | .chain _ => none

/-- What is true of the steps of rendering that are made for allowed uses under a registry, and passes
from steps to what is made of them. -/
structure Render.Judgment (r : Registry) (allowed : Use → Prop) where
  Holds {α : Type} : Render α → Prop
  pure {α : Type} (a : α) : Holds (pure a)
  bind {α β : Type} {x : Render α} {f : α → Render β} :
    Holds x → (∀ a, Holds (f a)) → Holds (x >>= f)
  write (text : String) : Holds (Render.write text)
  autoescape : Holds Render.autoescape
  evaluate {use : Use} {e : Expression} {place : Place} {b : BoundExpression} : allowed use →
    use.expression? = some e → BoundExpression.bind r.filter? place e = .ok b →
      Holds (Render.evaluate b)
  binding {name : String} {e : Expression} (value : Value) : allowed (.binding name e) →
    Holds (Render.bind name value)
  chain {calls : List FilterCall} {place : Place} {chain : FilterChain} (value : Value) :
    allowed (.chain calls) → FilterChain.bind r.filter? place calls = .ok chain →
      Holds (do ofExcept (FilterChain.apply (← get).scope chain value))
  captured {x : Render Unit} : Holds x → Holds (Render.captured x)
  withAutoescape (flag : Bool) {x : Render Unit} : Holds x → Holds (Render.withAutoescape flag x)

namespace Render.Judgment

variable {r : Registry} {allowed : Use → Prop} (J : Render.Judgment r allowed)

/-! ### Expressions -/

section Expressions

variable {place : Place}

theorem holds_writeExpression {e : Expression} {b : BoundExpression} (hallowed : allowed (.output e))
    (hb : BoundExpression.bind r.filter? place e = .ok b) : J.Holds (Render.writeExpression b) := by
  unfold Render.writeExpression
  refine J.bind (J.evaluate hallowed rfl hb) fun value ↦ J.bind J.autoescape fun flag ↦ ?_
  split
  · exact J.write _
  · exact J.write _

/-- An expression that is written in a text is evaluated, if the text is an allowed use. -/
theorem holds_ofText (make : Expression → Use) (hmake : ∀ e, (make e).expression? = some e)
    {text : String} {b : BoundExpression}
    (hallowed : ∀ use ∈ ((Expression.parse text).toOption.map make).toList, allowed use)
    (hb : BoundExpression.ofText r.filter? place text = .ok b) : J.Holds (Render.evaluate b) := by
  unfold BoundExpression.ofText at hb
  split at hb
  · next e he =>
    rw [he] at hallowed
    exact J.evaluate (hallowed (make e) (by simp [Except.toOption])) (hmake e) hb
  · cases hb

theorem holds_evaluateAll {texts : List String} {bs : List BoundExpression}
    (hallowed : ∀ use ∈ texts.flatMap fun text ↦
      ((Expression.parse text).toOption.map .argument).toList, allowed use)
    (hbs : BoundExpression.ofTexts r.filter? place texts = .ok bs) :
    J.Holds (Render.evaluateAll bs) := by
  induction texts generalizing bs with
  | nil =>
    cases hbs
    exact J.pure []
  | cons text rest ih =>
    rw [BoundExpression.ofTexts] at hbs
    rw [List.flatMap_cons] at hallowed
    split at hbs
    · next b hb =>
      obtain ⟨later, hlater, rfl⟩ := Computation.map_eq_ok.mp hbs
      have hfirst := J.holds_ofText .argument (fun _ ↦ rfl)
        (fun use huse ↦ hallowed use (List.mem_append_left _ huse)) hb
      have hrest := ih (fun use huse ↦ hallowed use (List.mem_append_right _ huse)) hlater
      rw [Render.evaluateAll]
      exact J.bind hfirst fun v ↦ J.bind hrest fun vs ↦ J.pure (v :: vs)
    · cases hbs

end Expressions

/-! ### Built-in tags -/

section Tags

variable {head : TagHead} {span : Span} {body : Option Body} {i : Instruction}

theorem holds_set (hname : head.name = "set") (hallowed : ∀ use ∈ head.rawUses, allowed use)
    (h : RawTag.set.instruction r head span body = .ok i) : J.Holds i.run := by
  obtain ⟨f, hf, hrun⟩ := run_of_instruction h
  rw [hrun]
  unfold RawTag.set at hf
  unfold TagHead.rawUses at hallowed
  rw [if_pos hname] at hallowed
  dsimp only at hf
  split at hf
  · cases hf
  · next left right hsplit =>
    rw [hsplit] at hallowed
    dsimp only at hallowed
    split at hf
    · obtain ⟨b, hb, rfl⟩ := Computation.map_eq_ok.mp hf
      have hvalue := J.holds_ofText (.binding (String.ofList (Text.trim left))) (fun _ ↦ rfl)
        hallowed hb
      change BoundExpression.ofText r.filter? span.start.place _ = .ok b at hb
      unfold BoundExpression.ofText at hb
      refine J.bind hvalue fun value ↦ ?_
      split at hb
      · next e he =>
        rw [he] at hallowed
        exact J.binding value (hallowed (.binding _ e) (by simp [Except.toOption]))
      · cases hb
    · cases hf

theorem holds_autoescape (hbody : J.Holds (Instruction.runAll (body.getD [])))
    (h : RawTag.autoescape.instruction r head span body = .ok i) : J.Holds i.run := by
  obtain ⟨f, hf, hrun⟩ := run_of_instruction h
  rw [hrun]
  unfold RawTag.autoescape at hf
  dsimp only at hf
  split at hf
  · cases hf
    exact J.withAutoescape true hbody
  · cases hf
    exact J.withAutoescape true hbody
  · cases hf
    exact J.withAutoescape false hbody
  · cases hf

theorem holds_spaceless (hbody : J.Holds (Instruction.runAll (body.getD [])))
    (h : RawTag.spaceless.instruction r head span body = .ok i) : J.Holds i.run := by
  obtain ⟨f, hf, hrun⟩ := run_of_instruction h
  rw [hrun]
  unfold RawTag.spaceless at hf
  dsimp only at hf
  split at hf
  · cases hf
    exact J.bind (J.captured hbody) fun text ↦ J.write _
  · cases hf

theorem holds_filter (hname : head.name = "filter")
    (hallowed : ∀ use ∈ head.rawUses, allowed use)
    (hbody : J.Holds (Instruction.runAll (body.getD [])))
    (h : RawTag.filter.instruction r head span body = .ok i) : J.Holds i.run := by
  obtain ⟨f, hf, hrun⟩ := run_of_instruction h
  rw [hrun]
  unfold RawTag.filter at hf
  unfold TagHead.rawUses at hallowed
  rw [if_neg (by rw [hname]; decide), if_pos hname] at hallowed
  dsimp only [RawTagInput.filterChain, FilterChain.ofText] at hf
  split at hf
  · cases hf
  · obtain ⟨chain, hchain, rfl⟩ := Computation.map_eq_ok.mp hf
    split at hchain
    · next calls hcalls =>
      rw [hcalls] at hallowed
      have hcalls : allowed (.chain calls) := hallowed _ (by simp [Except.toOption])
      refine J.bind (J.captured hbody) fun text ↦ ?_
      rw [← bind_assoc]
      exact J.bind (J.chain _ hcalls hchain) fun value ↦ J.write _
    · cases hchain

/-- The rules pass to what a built-in tag is compiled to. -/
theorem holds_builtin (hr : r.HasBuiltinTags) {tag : RawTag}
    (htag : r.tag? head.name = some (.raw tag)) (hallowed : ∀ use ∈ head.rawUses, allowed use)
    (hbody : J.Holds (Instruction.runAll (body.getD [])))
    (h : tag.instruction r head span body = .ok i) : J.Holds i.run := by
  rcases builtin_cases hr (Registry.tag?_eq_raw htag).2 with
    ⟨hname, rfl⟩ | ⟨-, rfl⟩ | ⟨-, rfl⟩ | ⟨hname, rfl⟩
  · exact J.holds_set hname hallowed h
  · exact J.holds_autoescape hbody h
  · exact J.holds_spaceless hbody h
  · exact J.holds_filter hname hallowed hbody h

end Tags

/-! ### Nodes -/

section Nodes

/-- The rules hold for the body of a supplied template. -/
private def HoldsFor (u : Supplied) : Prop := J.Holds (Instruction.runAll u.template.body)

private theorem holds_bodyOf (kind : TagKind) {x : Supply Body}
    (hx : kind = .block → Supply.Ensures J.HoldsFor x fun body ↦
      J.Holds (Instruction.runAll body)) :
    Supply.Ensures J.HoldsFor (Node.bodyOf kind x) fun body ↦
      J.Holds (Instruction.runAll (body.getD [])) ∧ J.Holds (Instruction.runOptional body) := by
  cases kind with
  | block =>
    refine (hx rfl).map fun body hbody ↦ ⟨hbody, ?_⟩
    rwa [Instruction.runOptional]
  | standalone =>
    refine .pure ⟨?_, ?_⟩
    · rw [Option.getD_none, Instruction.runAll]
      exact J.pure ()
    · rw [Instruction.runOptional]
      exact J.pure ()

mutual

private theorem holds_node (hr : r.HasBuiltinTags) : (node : Node) →
    (∀ use ∈ node.uses r, allowed use) →
    Supply.Ensures J.HoldsFor (Node.compile r Supply.next node) fun i ↦ J.Holds i.run
  | .text s, _ => by
    refine .pure ?_
    rw [Instruction.run]
    exact J.write s
  | .output e span, hallowed => by
    rw [Node.compile]
    refine (Supply.Ensures.ofExcept _).map fun b hb ↦ ?_
    rw [Instruction.run]
    exact J.holds_writeExpression (hallowed _ (by simp [Node.uses])) hb
  | .tag head kind children span, hallowed => by
    have hchildren := holds_nodes hr children
    rw [Node.compile]
    rw [Node.uses] at hallowed
    cases htag : r.tag? head.name with
    | none => exact .throw _
    | some entry =>
      rw [htag] at hallowed
      cases entry with
      | simple handler =>
        have hbody := J.holds_bodyOf kind fun hkind ↦ hchildren fun use huse ↦
          hallowed use (List.mem_append_right _ (by rwa [if_pos hkind]))
        refine (Supply.Ensures.ofExcept _).bind fun arguments harguments ↦
          hbody.bind fun body hholds ↦ .pure ?_
        have hvalues := J.holds_evaluateAll
          (fun use huse ↦ hallowed use (List.mem_append_left _ huse)) harguments
        rw [Instruction.run]
        refine J.bind hvalues fun values ↦ ?_
        split
        · exact J.write _
        · exact hholds.2
      | raw handler =>
        have hbody := J.holds_bodyOf kind fun hkind ↦ hchildren fun use huse ↦
          hallowed use (List.mem_append_right _ (by rwa [if_pos hkind]))
        refine hbody.bind fun body hholds ↦ (Supply.Ensures.ofExcept _).imp fun i hi ↦ ?_
        exact J.holds_builtin hr htag
          (fun use huse ↦ hallowed use (List.mem_append_left _ huse)) hholds.1 hi
      | inclusion =>
        cases head.literal? with
        | none => exact .throw _
        | some identifier =>
          refine (Supply.Ensures.next identifier).bind ?_
          rintro _ ⟨u, hu, rfl⟩
          refine .pure ?_
          rw [Instruction.run]
          exact hu

/-- The rules pass to a body that is compiled from nodes with supplied templates, if they hold for
the bodies of these. -/
theorem holds_nodes (hr : r.HasBuiltinTags) : (nodes : List Node) →
    (∀ use ∈ Node.usesOf r nodes, allowed use) →
    Supply.Ensures J.HoldsFor (Node.compileAll r Supply.next nodes) fun body ↦
      J.Holds (Instruction.runAll body)
  | [], _ => by
    refine .pure ?_
    rw [Instruction.runAll]
    exact J.pure ()
  | node :: rest, hallowed => by
    have hnode := holds_node hr node fun use huse ↦ hallowed use (List.mem_append_left _ huse)
    have hrest := holds_nodes hr rest fun use huse ↦ hallowed use (List.mem_append_right _ huse)
    rw [Node.compileAll]
    refine hnode.bind fun i hi ↦ hrest.bind fun body hbody ↦ .pure ?_
    rw [Instruction.runAll]
    exact J.bind hi fun _ ↦ hbody

end

end Nodes

/-! ### Templates -/

section Templates

variable {files : FileSystem → Prop} {t : Template} {uses : List Use}

/-- The rules pass to a body from the supplied templates, if all that the nodes and these use is
allowed. -/
private theorem holds_of_supply (hr : r.HasBuiltinTags) {nodes : List Node}
    {supply : List Supplied} {body : Body}
    (hbody : Node.compileAll r Supply.next nodes supply = (.ok body, []))
    (hallowed : ∀ use ∈ Node.usesOf r nodes ++ supply.flatMap Supplied.uses, allowed use)
    (hsupply : ∀ u ∈ supply, (∀ use ∈ u.uses, allowed use) → J.HoldsFor u) :
    J.Holds (Instruction.runAll body) := by
  refine (J.holds_nodes hr nodes ?_ supply body [] ?_ hbody).1
  · exact fun use huse ↦ hallowed use (List.mem_append_left _ huse)
  · refine fun u hu ↦ hsupply u hu fun use huse ↦ hallowed use ?_
    exact List.mem_append_right _ (List.mem_flatMap.mpr ⟨u, hu, huse⟩)

/-- The rules hold for the body of a compiled template, if all that it uses is allowed. -/
private theorem holds_of_compiledFrom (hr : r.HasBuiltinTags) (h : t.CompiledFrom files uses) :
    t.registry = r → (∀ use ∈ uses, allowed use) → J.Holds (Instruction.runAll t.body) := by
  induction h with
  | intro _ _ hleads _ hbody ih =>
    rintro rfl hallowed
    exact J.holds_of_supply hr hbody hallowed fun u hu ↦ ih u hu (hleads u hu).2

/-- The rules hold for a compiled body, if all that it uses is allowed. -/
theorem holds_of_body (hr : r.HasBuiltinTags) {nodes : List Node} {body : Body}
    (h : body.CompiledFrom files r nodes uses) (hallowed : ∀ use ∈ uses, allowed use) :
    J.Holds (Instruction.runAll body) := by
  cases h with
  | intro _ hleads hcompiled hbody =>
    exact J.holds_of_supply hr hbody hallowed fun u hu ↦
      J.holds_of_compiledFrom hr (hcompiled u hu) (hleads u hu).2

/-- The rules hold for the body of a template, if all that it uses is allowed. -/
theorem holds_of_uses (hr : r.HasBuiltinTags) (hregistry : t.registry = r)
    (h : t.Uses files uses) (hallowed : ∀ use ∈ uses, allowed use) :
    J.Holds (Instruction.runAll t.body) := by
  rcases h with hcompiled | ⟨⟨e, hbody⟩, -⟩
  · exact J.holds_of_compiledFrom hr hcompiled hregistry hallowed
  · rw [hbody, Instruction.runAll, Instruction.run, Instruction.runAll]
    exact J.bind (J.write _) fun _ ↦ J.pure ()

end Templates

end Render.Judgment

end Stencil
