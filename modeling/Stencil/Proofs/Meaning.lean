import Stencil.Proofs.Interpreter
import Stencil.Proofs.Transparency

/-!
# What compiled templates mean

Rendering a compiled template is interpreting its nodes. Each step of rendering goes like a step of
interpreting; the relation passes through sequences, captured bodies and switches of escaping, and
so from the nodes of a template to its instructions.
-/

namespace Stencil

/-! ### Steps that go alike -/

/-- A rendering step that began in a state ended as an interpreting step did: they changed the same,
and the answer of the interpreting step tells what the other one answered and wrote. -/
def EndsLike {α β : Type} (answer : α → β) (written : α → String) (s : RenderState)
    (interpreted : Except Error (α × Surroundings))
    (rendered : Except Error β × RenderState) : Prop :=
  match interpreted with
  | .ok (a, after) => rendered = (.ok (answer a), { s with
      output := s.output ++ written a, scope := after.scope, autoescape := after.autoescape })
  | .error e => ∃ after, rendered = (.error e, after) ∧ after.calls = s.calls

@[simp] theorem endsLike_ok {α β : Type} {answer : α → β} {written : α → String} {s : RenderState}
    {a : α} {after : Surroundings} {rendered : Except Error β × RenderState} :
    EndsLike answer written s (.ok (a, after)) rendered ↔ rendered = (.ok (answer a), { s with
      output := s.output ++ written a, scope := after.scope, autoescape := after.autoescape }) :=
  Iff.rfl

/-- A rendering step goes like an interpreting step from every state. -/
structure GoesLike {α β : Type} (answer : α → β) (written : α → String) (x : Interpretation α)
    (y : Render β) : Prop where
  ends : ∀ s : RenderState, EndsLike answer written s (x ⟨s.scope, s.autoescape⟩) (y s)

/-- A rendering step answers what an interpreting step answers, and writes nothing. -/
abbrev Yields {α : Type} : Interpretation α → Render α → Prop := GoesLike id fun _ ↦ ""

/-- A rendering step writes what an interpreting step answers. -/
abbrev Writes : Interpretation String → Render Unit → Prop := GoesLike (fun _ ↦ ()) id

theorem Yields.bind {α β γ : Type} {answer : β → γ} {written : β → String} {x : Interpretation α}
    {y : Render α} {f : α → Interpretation β} {g : α → Render γ} (h : Yields x y)
    (hfg : ∀ a, GoesLike answer written (f a) (g a)) :
    GoesLike answer written (x >>= f) (y >>= g) := by
  constructor
  intro s
  have hs := h.ends s
  rw [Interpretation.bind_apply, Computation.bind_apply]
  rcases hx : x ⟨s.scope, s.autoescape⟩ with e | ⟨a, after⟩ <;> rw [hx] at hs
  · obtain ⟨after, hy, hcalls⟩ := hs
    rw [hy]
    exact ⟨after, rfl, hcalls⟩
  · have hnext := (hfg a).ends { s with scope := after.scope, autoescape := after.autoescape }
    rw [endsLike_ok, String.append_empty] at hs
    rw [hs]
    exact hnext

theorem yields_pure {α : Type} (a : α) : Yields (pure a) (pure a) := by
  constructor
  intro s
  simp

theorem writes_write (text : String) : Writes (pure text) (Render.write text) :=
  ⟨fun _ ↦ rfl⟩

theorem writes_nothing : Writes (pure "") (pure ()) := by
  constructor
  intro s
  simp

/-- What two steps write one after the other. -/
theorem Writes.append {x x' : Interpretation String} {y y' : Render Unit} (h : Writes x y)
    (h' : Writes x' y') : Writes (do return (← x) ++ (← x')) (do y; y') := by
  constructor
  intro s
  have hs := h.ends s
  rw [Computation.bind_apply, Interpretation.bind_apply]
  rcases hx : x ⟨s.scope, s.autoescape⟩ with e | ⟨a, after⟩ <;> rw [hx] at hs
  · obtain ⟨after, hy, hcalls⟩ := hs
    rw [hy]
    exact ⟨after, rfl, hcalls⟩
  · have hs' := h'.ends { s with
      output := s.output ++ a, scope := after.scope, autoescape := after.autoescape }
    rw [endsLike_ok] at hs
    dsimp only [id] at hs hs' ⊢
    rw [hs, Interpretation.bind_apply]
    rcases hx' : x' after with e | ⟨b, after'⟩ <;> rw [hx'] at hs'
    · exact hs'
    · rw [endsLike_ok] at hs'
      dsimp only [id] at hs' ⊢
      rw [hs', Interpretation.pure_apply, String.append_assoc]
      rfl

/-- What a step writes is what is captured of it. -/
theorem Writes.captured {x : Interpretation String} {y : Render Unit} (h : Writes x y) :
    Yields x (Render.captured y) := by
  constructor
  intro s
  have hs := h.ends { s with output := "" }
  dsimp only at hs
  rcases hx : x ⟨s.scope, s.autoescape⟩ with e | ⟨text, after⟩ <;> rw [hx] at hs
  · obtain ⟨after, hy, hcalls⟩ := hs
    refine ⟨{ after with output := s.output }, ?_, hcalls⟩
    simp [Render.captured, hy]
  · rw [endsLike_ok] at hs
    simp [Render.captured, hs]

/-- Escaping is switched for a step and back after it. -/
theorem Writes.withAutoescape {x : Interpretation String} {y : Render Unit} (h : Writes x y)
    (flag : Bool) :
    Writes (Interpretation.withAutoescape flag x) (Render.withAutoescape flag y) := by
  constructor
  intro s
  have hs := h.ends { s with autoescape := flag }
  dsimp only at hs
  unfold Interpretation.withAutoescape Render.withAutoescape Render.autoescape Render.setAutoescape
  simp only [Interpretation.bind_apply, Interpretation.get_apply, Interpretation.modify_apply,
    Computation.bind_apply, Computation.get_apply, Computation.modify_apply,
    Computation.pure_apply, Computation.lift_run_apply]
  rcases hx : x ⟨s.scope, flag⟩ with e | ⟨text, after⟩ <;> rw [hx] at hs
  · obtain ⟨after, hy, hcalls⟩ := hs
    refine ⟨{ after with autoescape := s.autoescape }, ?_, hcalls⟩
    simp [hy]
  · rw [endsLike_ok] at hs
    simp [hs]

/-! ### Expressions -/

section Expressions

variable {r : Registry} {place : Place}

/-- Calls that are bound are applied like calls that are looked up in turn. -/
theorem applyCalls_of_bind {calls : List FilterCall} {chain : FilterChain}
    (h : FilterChain.bind r.filter? place calls = .ok chain) (scope : Scope) (value : Value) :
    Interpretation.applyCalls r place scope calls value = FilterChain.apply scope chain value := by
  induction calls generalizing chain value with
  | nil =>
    cases h
    rfl
  | cons call rest ih =>
    rw [FilterChain.bind] at h
    split at h
    · cases h
    · next filter hfilter =>
      obtain ⟨later, hlater, rfl⟩ := Computation.map_eq_ok.mp h
      rw [Interpretation.applyCalls, hfilter, FilterChain.apply]
      dsimp only
      cases filter.apply value (call.arguments.map (Expr.evaluate scope)) with
      | error e => rfl
      | ok next => exact ih hlater next

theorem isSafe_of_bind {calls : List FilterCall} {chain : FilterChain}
    (h : FilterChain.bind r.filter? place calls = .ok chain) :
    Interpretation.isSafe calls = FilterChain.isSafe chain := by
  induction calls generalizing chain with
  | nil =>
    cases h
    rfl
  | cons call rest ih =>
    rw [FilterChain.bind] at h
    split at h
    · cases h
    · obtain ⟨later, hlater, rfl⟩ := Computation.map_eq_ok.mp h
      have hrest := ih hlater
      unfold Interpretation.isSafe FilterChain.isSafe at hrest ⊢
      rw [List.any_cons, List.any_cons, hrest]

private theorem yields_ofExcept {α : Type} (f : Scope → Except Error α) :
    Yields (do ofExcept (f (← get).scope)) (do ofExcept (f (← get).scope)) := by
  constructor
  intro s
  rw [Interpretation.bind_apply, Computation.bind_apply, Interpretation.get_apply,
    Computation.get_apply]
  dsimp only
  rw [Interpretation.ofExcept_apply, Computation.ofExcept_apply]
  cases f s.scope with
  | error e => exact ⟨s, rfl, rfl⟩
  | ok a => simp [Except.map]

/-- A bound expression is evaluated like one whose filters are looked up in turn. -/
theorem yields_expression {e : Expression} {b : BoundExpression}
    (h : BoundExpression.bind r.filter? place e = .ok b) :
    Yields (Interpretation.expression r place e) (Render.evaluate b) := by
  obtain ⟨chain, hchain, rfl⟩ := Computation.map_eq_ok.mp h
  have hcalls (scope : Scope) :
      Interpretation.applyCalls r place scope e.filters (e.base.evaluate scope) =
        BoundExpression.evaluate scope ⟨e.base, chain⟩ := applyCalls_of_bind hchain scope _
  unfold Interpretation.expression Render.evaluate
  simp only [hcalls]
  exact yields_ofExcept fun scope ↦ BoundExpression.evaluate scope ⟨e.base, chain⟩

/-- A bound expression is evaluated like the text it is written in. -/
theorem yields_expressionText {text : String} {b : BoundExpression}
    (h : BoundExpression.ofText r.filter? place text = .ok b) :
    Yields (Interpretation.expressionText r place text) (Render.evaluate b) := by
  unfold BoundExpression.ofText at h
  split at h
  · next e he =>
    unfold Interpretation.expressionText
    rw [he]
    exact yields_expression h
  · cases h

theorem yields_expressionTexts {texts : List String} {bs : List BoundExpression}
    (h : BoundExpression.ofTexts r.filter? place texts = .ok bs) :
    Yields (Interpretation.expressionTexts r place texts) (Render.evaluateAll bs) := by
  induction texts generalizing bs with
  | nil =>
    cases h
    exact yields_pure []
  | cons text rest ih =>
    rw [BoundExpression.ofTexts] at h
    split at h
    · next b hb =>
      obtain ⟨later, hlater, rfl⟩ := Computation.map_eq_ok.mp h
      rw [Interpretation.expressionTexts, Render.evaluateAll]
      exact (yields_expressionText hb).bind fun v ↦ (ih hlater).bind fun vs ↦ yields_pure (v :: vs)
    · cases h

/-- The output of an expression is written. -/
theorem writes_output {e : Expression} {b : BoundExpression}
    (h : BoundExpression.bind r.filter? place e = .ok b) :
    Writes (Interpretation.output r place e) (Render.writeExpression b) := by
  have hsafe : Interpretation.isSafe e.filters = b.isSafe := by
    obtain ⟨chain, hchain, rfl⟩ := Computation.map_eq_ok.mp h
    exact isSafe_of_bind hchain
  refine (yields_expression h).bind fun v ↦ ?_
  constructor
  intro s
  simp only [hsafe, Render.autoescape, Interpretation.bind_apply, Interpretation.get_apply,
    Computation.bind_apply, Computation.get_apply, Computation.pure_apply]
  cases s.autoescape && !b.isSafe with
  | true => exact (writes_write (Text.escapeHtml v.display)).ends s
  | false => exact (writes_write v.display).ends s

end Expressions

/-! ### Tags -/

/-- The raw tags of a registry are the built-in ones. -/
def Registry.HasBuiltinTags (r : Registry) : Prop := r.rawTags = Fields.ofList RawTag.builtins

theorem Registry.HasBuiltinTags.isPure {r : Registry} (h : r.HasBuiltinTags) : r.IsPure := by
  intro entry hentry
  rw [h] at hentry
  exact RawTag.isPure_of_mem_builtins (Fields.mem_ofList hentry)

section Tags

variable {r : Registry} {span : Span} {head : TagHead} {body : Option Body}
  {x : Interpretation String} {i : Instruction}

/-- What a raw tag is compiled to runs its fragment. -/
theorem run_of_instruction {tag : RawTag}
    (h : tag.instruction r head span body = .ok i) :
    ∃ f, tag.compile ⟨head, body, span, r.filter?, r.extension?⟩ = .ok f ∧
      Instruction.run i = f.run := by
  obtain ⟨f, hf, rfl⟩ := Computation.map_eq_ok.mp h
  exact ⟨f, hf, by rw [Instruction.run]⟩

theorem writes_set (h : RawTag.set.instruction r head span body = .ok i) :
    Writes (Interpretation.set r span.start.place head) i.run := by
  obtain ⟨f, hf, hrun⟩ := run_of_instruction h
  rw [hrun]
  unfold RawTag.set at hf
  dsimp only at hf
  split at hf
  · cases hf
  · next left right hsplit =>
    unfold Interpretation.set
    rw [hsplit]
    dsimp only
    split at hf
    · next hname =>
      obtain ⟨b, hb, rfl⟩ := Computation.map_eq_ok.mp hf
      rw [if_pos hname]
      refine (yields_expressionText hb).bind fun v ↦ ?_
      constructor
      intro s
      simp [Render.bind]
    · cases hf

theorem writes_autoescape (hx : Writes x (Instruction.runAll (body.getD [])))
    (h : RawTag.autoescape.instruction r head span body = .ok i) :
    Writes (Interpretation.autoescape span.start.place head x) i.run := by
  obtain ⟨f, hf, hrun⟩ := run_of_instruction h
  rw [hrun]
  unfold RawTag.autoescape at hf
  dsimp only [RawTagInput.arguments] at hf
  split at hf
  · next harguments =>
    cases hf
    unfold Interpretation.autoescape
    rw [harguments]
    exact hx.withAutoescape true
  · next harguments =>
    cases hf
    unfold Interpretation.autoescape
    rw [harguments]
    exact hx.withAutoescape true
  · next harguments =>
    cases hf
    unfold Interpretation.autoescape
    rw [harguments]
    exact hx.withAutoescape false
  · cases hf

theorem writes_spaceless (hx : Writes x (Instruction.runAll (body.getD [])))
    (h : RawTag.spaceless.instruction r head span body = .ok i) :
    Writes (Interpretation.spaceless span.start.place head x) i.run := by
  obtain ⟨f, hf, hrun⟩ := run_of_instruction h
  rw [hrun]
  unfold RawTag.spaceless at hf
  unfold Interpretation.spaceless
  dsimp only at hf
  split at hf
  · next harguments =>
    change head.arguments = [] at harguments
    cases hf
    rw [if_pos harguments]
    exact hx.captured.bind fun text ↦ writes_write _
  · cases hf

theorem writes_filter (hx : Writes x (Instruction.runAll (body.getD [])))
    (h : RawTag.filter.instruction r head span body = .ok i) :
    Writes (Interpretation.filter r span.start.place head x) i.run := by
  obtain ⟨f, hf, hrun⟩ := run_of_instruction h
  rw [hrun]
  unfold RawTag.filter at hf
  unfold Interpretation.filter
  dsimp only [RawTagInput.filterChain, FilterChain.ofText] at hf
  split at hf
  · cases hf
  · next hraw =>
    rw [if_neg hraw]
    obtain ⟨chain, hchain, rfl⟩ := Computation.map_eq_ok.mp hf
    split at hchain
    · next calls hcalls =>
      change FilterChain.bind r.filter? span.start.place calls = .ok chain at hchain
      rw [hcalls]
      refine hx.captured.bind fun text ↦ ?_
      simp only [applyCalls_of_bind hchain]
      rw [← bind_assoc, ← bind_assoc]
      have hvalue := yields_ofExcept fun scope ↦ FilterChain.apply scope chain (.string text)
      exact hvalue.bind fun value ↦ writes_write value.display
    · cases hchain

end Tags

/-! ### Nodes -/

section Nodes

variable {r : Registry} {inclusion : String → Interpretation String}
  {load : String → Expansion Template} {stack : IncludeStack}

/-- Where the raw tags are the built-in ones, a raw tag is one of them under its name. -/
theorem builtin_cases (hr : r.HasBuiltinTags) {name : String} {tag : RawTag}
    (h : Fields.find? name r.rawTags = some tag) :
    name = "set" ∧ tag = .set ∨ name = "autoescape" ∧ tag = .autoescape ∨
      name = "spaceless" ∧ tag = .spaceless ∨ name = "filter" ∧ tag = .filter := by
  rw [hr] at h
  have hmem := Fields.mem_ofList (Fields.mem_of_find? h)
  simpa [RawTag.builtins] using hmem

/-- The instruction that a built-in tag is compiled to writes what interpreting the tag gives. -/
private theorem writes_builtin {tag : RawTag} {span : Span} {head : TagHead}
    {body : Option Body} {x : Interpretation String} {i : Instruction}
    (hr : r.HasBuiltinTags) (htag : r.tag? head.name = some (.raw tag))
    (hx : Writes x (Instruction.runAll (body.getD [])))
    (h : tag.instruction r head span body = .ok i) :
    Writes (Interpretation.tag r span.start.place inclusion head x) i.run := by
  obtain ⟨hsimple, hraw⟩ := Registry.tag?_eq_raw htag
  unfold Interpretation.tag
  rw [hsimple]
  rcases builtin_cases hr hraw with ⟨hname, rfl⟩ | ⟨hname, rfl⟩ | ⟨hname, rfl⟩ | ⟨hname, rfl⟩
  · simpa [hname] using writes_set h
  · simpa [hname] using writes_autoescape hx h
  · simpa [hname] using writes_spaceless hx h
  · simpa [hname] using writes_filter hx h

private theorem writes_body (kind : TagKind) {x : Expansion Body} {y : Interpretation String}
    (h : ∀ body, x stack = .ok body → Writes y (Instruction.runAll body)) {body : Option Body}
    (hbody : Node.bodyOf kind x stack = .ok body) :
    Writes (Interpretation.bodyOf kind y) (Instruction.runOptional body) := by
  cases kind with
  | block =>
    obtain ⟨b, hb, rfl⟩ := Computation.map_eq_ok.mp hbody
    rw [Instruction.runOptional]
    exact h b hb
  | standalone =>
    cases hbody
    rw [Instruction.runOptional]
    exact writes_nothing

/-- The instruction that a tag is compiled to writes what interpreting the tag gives, if its body
does. -/
private theorem writes_tag (hr : r.HasBuiltinTags)
    (hload : ∀ identifier t, load identifier stack = .ok t →
      Writes (inclusion identifier) (Instruction.runAll t.body))
    {head : TagHead} {kind : TagKind} {children : List Node} {span : Span} {i : Instruction}
    {x : Interpretation String}
    (hchildren : ∀ body, Node.bodyOf kind (Node.compileAll r load children) stack = .ok body →
      Writes x (Instruction.runOptional body))
    (h : Node.compile r load (.tag head kind children span) stack = .ok i) :
    Writes (Interpretation.tag r span.start.place inclusion head x) i.run := by
  rw [Node.compile] at h
  cases htag : r.tag? head.name with
  | none =>
    rw [htag] at h
    cases h
  | some entry =>
    rw [htag] at h
    cases entry with
    | simple handler =>
      obtain ⟨arguments, harguments, h⟩ := Computation.bind_eq_ok.mp h
      obtain ⟨body, hbody, h⟩ := Computation.bind_eq_ok.mp h
      cases h
      have hvalues := yields_expressionTexts (Expansion.eq_ok_of_ofExcept harguments)
      unfold Interpretation.tag
      rw [Registry.tag?_eq_simple htag, Instruction.run]
      refine hvalues.bind fun values ↦ ?_
      cases handler.call values with
      | some answer => exact writes_write answer
      | none => exact hchildren body hbody
    | raw handler =>
      obtain ⟨body, hbody, h⟩ := Computation.bind_eq_ok.mp h
      apply writes_builtin hr htag _ (Expansion.eq_ok_of_ofExcept h)
      have hx := hchildren body hbody
      cases body <;> simpa [Instruction.runOptional, Instruction.runAll] using hx
    | inclusion =>
      obtain ⟨hsimple, hname⟩ := Registry.tag?_eq_inclusion htag
      cases hliteral : head.literal? with
      | none =>
        simp only [hliteral] at h
        cases h
      | some identifier =>
        simp only [hliteral] at h
        obtain ⟨t, ht, h⟩ := Computation.bind_eq_ok.mp h
        cases h
        have hincluded := hload identifier t ht
        unfold Interpretation.tag
        rw [hsimple]
        simpa [hname, hliteral, Registry.inclusionName, Instruction.run] using hincluded

mutual

/-- The instruction that a node is compiled to writes what interpreting the node gives. -/
private theorem writes_node (hr : r.HasBuiltinTags)
    (hload : ∀ identifier t, load identifier stack = .ok t →
      Writes (inclusion identifier) (Instruction.runAll t.body)) :
    (node : Node) → ∀ i, Node.compile r load node stack = .ok i →
      Writes (Interpretation.node r inclusion node) i.run
  | .text s, i, h => by
    cases h
    rw [Interpretation.node, Instruction.run]
    exact writes_write s
  | .output e span, i, h => by
    rw [Node.compile] at h
    obtain ⟨b, hb, rfl⟩ := Computation.map_eq_ok.mp h
    rw [Interpretation.node, Instruction.run]
    exact writes_output (Expansion.eq_ok_of_ofExcept hb)
  | .tag head kind children span, i, h => by
    rw [Interpretation.node]
    apply writes_tag hr hload _ h
    intro body hbody
    exact writes_body kind (fun b hb ↦ writes_nodes hr hload children b hb) hbody

/-- The body that nodes are compiled to writes what interpreting them gives. -/
theorem writes_nodes (hr : r.HasBuiltinTags)
    (hload : ∀ identifier t, load identifier stack = .ok t →
      Writes (inclusion identifier) (Instruction.runAll t.body)) :
    (nodes : List Node) → ∀ body, Node.compileAll r load nodes stack = .ok body →
      Writes (Interpretation.nodes r inclusion nodes) (Instruction.runAll body)
  | [], body, h => by
    cases h
    rw [Interpretation.nodes, Instruction.runAll]
    exact writes_nothing
  | first :: rest, body, h => by
    obtain ⟨i, later, hi, hlater, rfl⟩ := Expansion.compileAll_cons.mp h
    rw [Interpretation.nodes, Instruction.runAll]
    exact (writes_node hr hload first i hi).append (writes_nodes hr hload rest later hlater)

end

/-- The body that a text is compiled to writes what interpreting the text gives. -/
theorem writes_source (hr : r.HasBuiltinTags)
    (hload : ∀ identifier t, load identifier stack = .ok t →
      Writes (inclusion identifier) (Instruction.runAll t.body))
    {text : String} {body : Body} (h : Expansion.body r load (.ok text) stack = .ok body) :
    Writes (Interpretation.source r inclusion text) (Instruction.runAll body) := by
  obtain ⟨_, nodes, ⟨⟩, hnodes, h⟩ := Expansion.body_eq_ok.mp h
  unfold Interpretation.source
  rw [hnodes]
  exact writes_nodes hr hload nodes body h

/-- The template in a file writes what interpreting the file gives, with any depth that is not
smaller. -/
theorem writes_file (hr : r.HasBuiltinTags) {fs : FileSystem} {depth depth' : Nat}
    (hdepth : depth ≤ depth') {identifier : String} {t : Template}
    (h : Expansion.fileWithin r fs depth identifier stack = .ok t) :
    Writes (Interpretation.file r fs depth' identifier) (Instruction.runAll t.body) := by
  induction depth generalizing depth' identifier stack t with
  | zero => cases h
  | succ depth ih =>
    obtain ⟨depth', rfl⟩ : ∃ n, depth' = n + 1 := ⟨depth' - 1, by omega⟩
    rw [Expansion.fileWithin] at h
    rw [Interpretation.file]
    cases haccess : r.fileAccess with
    | false =>
      rw [haccess] at h
      cases h
    | true =>
      rw [haccess] at h
      obtain ⟨path, hpath, h⟩ := Computation.bind_eq_ok.mp h
      obtain ⟨-, body, hbody, rfl⟩ := Expansion.template_eq_ok.mp h
      simp only [Expansion.eq_ok_of_ofExcept hpath, if_true]
      change Writes (do
        Interpretation.source r _ (← ofExcept (fs.textOf (.file path)))) _
      obtain ⟨text, -, htext, -⟩ := Expansion.body_eq_ok.mp hbody
      rw [htext] at hbody ⊢
      exact writes_source hr (fun other u hu ↦ ih (by omega) hu) hbody

end Nodes

/-! ### Templates -/

/-- An engine that has compiled nothing yet. -/
def Engine.fresh (r : Registry) (serial : Nat) : Engine := ⟨r, .empty r.cache, serial⟩

namespace Template

/-- What rendering answers at the end of a run. -/
def answerOf : Except Error Unit × RenderState → Except Error String × CallLog
  | (.ok (), after) => (.ok after.output, after.calls)
  | (.error e, after) => (.error e, after.calls)

theorem render_of_strict {t : Template} (hstrict : t.registry.policy = .strict) (scope : Scope)
    (calls : CallLog) :
    t.render scope calls = answerOf (Instruction.runAll t.body (t.initialState scope calls)) := by
  unfold render policy Body.write
  rw [hstrict]
  rcases Instruction.runAll t.body (t.initialState scope calls) with ⟨_ | _, _⟩ <;> rfl

end Template

/-- A step that writes what an interpreting step gives adds this to the output, and calls no
extension. -/
theorem Writes.answerOf {x : Interpretation String} {y : Render Unit} (h : Writes x y)
    (s : RenderState) : Template.answerOf (y s) =
      ((x ⟨s.scope, s.autoescape⟩).map fun a ↦ s.output ++ a.1, s.calls) := by
  have hs := h.ends s
  rcases hx : x ⟨s.scope, s.autoescape⟩ with e | ⟨output, after⟩ <;> rw [hx] at hs
  · obtain ⟨after, hy, hcalls⟩ := hs
    rw [hy, Template.answerOf, hcalls]
    rfl
  · rw [endsLike_ok] at hs
    rw [hs]
    rfl

namespace Template

/-- Templates of one registry whose runs end with the same answer render the same, under every
policy. -/
theorem render_eq_of_answerOf {t u : Template} (hregistry : t.registry = u.registry) {scope : Scope}
    {calls : CallLog}
    (h : answerOf (Instruction.runAll t.body (t.initialState scope calls)) =
      answerOf (Instruction.runAll u.body (t.initialState scope calls))) :
    t.render scope calls = u.render scope calls := by
  have hpolicy : t.policy = u.policy := congrArg Registry.policy hregistry
  have hstate : u.initialState scope calls = t.initialState scope calls := by
    rw [initialState, initialState, hregistry]
  unfold render Body.write
  rw [hpolicy, hstate]
  generalize Instruction.runAll t.body (t.initialState scope calls) = first at h ⊢
  generalize Instruction.runAll u.body (t.initialState scope calls) = second at h ⊢
  rcases first with ⟨_ | _, _⟩ <;> rcases second with ⟨_ | _, _⟩ <;> simp_all [answerOf]

/-- Templates of one registry that write what one step gives render the same. -/
theorem render_eq_of_writes {t u : Template} (hregistry : t.registry = u.registry)
    {x : Interpretation String} (ht : Writes x (Instruction.runAll t.body))
    (hu : Writes x (Instruction.runAll u.body)) (scope : Scope) (calls : CallLog) :
    t.render scope calls = u.render scope calls :=
  render_eq_of_answerOf hregistry (by rw [ht.answerOf, hu.answerOf])

end Template

section Answers

variable {r : Registry} {fs : FileSystem} {e : Engine} {q : Request} {t : Template}

/-- What a strict engine answers to a request is what the request is expanded to. -/
theorem Engine.expands_of_answer (hr : r.HasBuiltinTags) (hstrict : r.policy = .strict)
    (hregistry : e.registry = r) (hs : e.loading.Sound r r fs)
    (h : (e.answer fs q).1 = .ok t) :
    ∃ u, Expansion.ofRequest r fs q .empty = .ok u ∧ t.Agrees r u := by
  obtain ⟨hanswer, -⟩ := answer_expands hregistry hs (.refl r) hr.isPure q
  rw [h] at hanswer
  cases hresult : Expansion.ofRequest r fs q .empty with
  | error error =>
    rw [hresult, Answers, hstrict] at hanswer
    cases hanswer
  | ok u =>
    rw [hresult] at hanswer
    obtain ⟨_, ⟨⟩, hagrees⟩ := hanswer
    exact ⟨u, rfl, hagrees⟩

/-- What a request is expanded to writes what interpreting the request gives. -/
theorem writes_request (hr : r.HasBuiltinTags) {u : Template}
    (h : Expansion.ofRequest r fs q .empty = .ok u) {depth : Nat} (hdepth : fs.size + 2 ≤ depth) :
    Writes (Interpretation.request r fs depth q) (Instruction.runAll u.body) := by
  cases q with
  | text text =>
    change Expansion.ofIdentity r fs (.source text) .empty = .ok u at h
    obtain ⟨-, body, hbody, rfl⟩ := Expansion.template_eq_ok.mp h
    exact writes_source hr (fun _ _ hv ↦ writes_file hr hdepth hv) hbody
  | file identifier => exact writes_file hr hdepth h

/-- What a strict engine answers to a request writes what interpreting the request gives. -/
theorem Engine.writes_of_answer (hr : r.HasBuiltinTags) (hstrict : r.policy = .strict)
    (hregistry : e.registry = r) (hs : e.loading.Sound r r fs)
    (h : (e.answer fs q).1 = .ok t) {depth : Nat} (hdepth : fs.size + 2 ≤ depth) :
    t.registry = r ∧ Writes (Interpretation.request r fs depth q) (Instruction.runAll t.body) := by
  obtain ⟨u, hexpands, hagrees⟩ := expands_of_answer hr hstrict hregistry hs h
  rw [Instruction.runAll_eq_of_same _ _ hagrees.body]
  exact ⟨hagrees.registry, writes_request hr hexpands hdepth⟩

/-- Rendering what writes as a request is interpreted is interpreting the request. -/
theorem Template.render_of_writes (hregistry : t.registry = r) (hstrict : r.policy = .strict)
    {depth : Nat} (h : Writes (Interpretation.request r fs depth q) (Instruction.runAll t.body))
    (scope : Scope) (calls : CallLog) :
    t.render scope calls = (Interpretation.render r fs depth q scope, calls) := by
  rw [render_of_strict (hregistry ▸ hstrict), h.answerOf, initialState, hregistry,
    Interpretation.render]
  simp only [String.empty_append]

end Answers

/-- Rendering what a fresh strict engine compiles a text to is interpreting the text, if the raw
tags are the built-in ones; no extension is called. -/
theorem Template.render_eq_interpret {r : Registry} (hr : r.HasBuiltinTags)
    (hstrict : r.policy = .strict) {fs : FileSystem} {serial : Nat} {text : String} {t : Template}
    (h : ((Engine.fresh r serial).compile fs text).1 = .ok t) {depth : Nat}
    (hdepth : fs.size + 2 ≤ depth) (scope : Scope) (calls : CallLog) :
    t.render scope calls = (Interpretation.render r fs depth (.text text) scope, calls) := by
  have hanswer : ((Engine.fresh r serial).answer fs (.text text)).1 = .ok t := h
  have hregistry : (Engine.fresh r serial).registry = r := rfl
  have hsound : (Engine.fresh r serial).loading.Sound r r fs := Engine.sound_empty serial r.cache
  obtain ⟨hown, hwrites⟩ := Engine.writes_of_answer hr hstrict hregistry hsound hanswer hdepth
  exact render_of_writes hown hstrict hwrites scope calls

/-- The registry of a strict set-up with nothing else given. -/
def Registry.strictDefault : Registry :=
  .ofOptions 0 ⟨"/"⟩ { Options.default with policy := .strict }

theorem Registry.hasBuiltinTags_strictDefault : strictDefault.HasBuiltinTags := by
  unfold HasBuiltinTags
  rfl

/-- A file that binds a name and shows it. -/
def FileSystem.oneInclusion : FileSystem :=
  ⟨[], [(["a"], .file "\x7b% set y = x | upper %\x7d<b>\x7b\x7b y \x7d\x7d".toUTF8)]⟩

/-- A text that captures what this file renders. -/
def capturedInclusion : String :=
  "\x7b% spaceless %\x7d\x7b% include \"a\" %\x7d\x7b% endspaceless %\x7d"

theorem exists_compile_capturedInclusion :
    ∃ t, ((Engine.fresh .strictDefault 1).compile .oneInclusion capturedInclusion).1 = .ok t := by
  have hok : ((Engine.fresh .strictDefault 1).compile .oneInclusion
      capturedInclusion).1.isOk = true := by decide +kernel
  exact Computation.exists_eq_ok_of_isOk hok

/-- A file that is included in a captured body is rendered as it is interpreted. -/
theorem Template.render_eq_interpret_captured :
    ∃ t, ((Engine.fresh .strictDefault 1).compile .oneInclusion capturedInclusion).1 = .ok t ∧
      t.render [("x", .string "<i>")] [] =
        (Interpretation.render .strictDefault .oneInclusion 100 (.text capturedInclusion)
          [("x", .string "<i>")], []) := by
  obtain ⟨t, h⟩ := exists_compile_capturedInclusion
  have hdepth : FileSystem.oneInclusion.size + 2 ≤ 100 := by decide +kernel
  exact ⟨t, h, render_eq_interpret Registry.hasBuiltinTags_strictDefault rfl h hdepth _ _⟩

end Stencil
