import Stencil.Proofs.Meaning
import Stencil.Proofs.Seam

/-!
# Templates one after the other

A template whose text is two texts in one renders like the template of the first text, followed by
that of the second one in the scope that the first one leaves. The places of nodes do not show in
what they are compiled to, joined literal text is written like its parts, and escaping is at the end
of a template what it was at its start.
-/

namespace Stencil

/-! ### Nodes in other places -/

/-- The place of filter calls shows only in failures. -/
theorem FilterChain.bind_of_place {find : FindFilter} {place other : Place}
    {calls : List FilterCall} {chain : FilterChain} (h : bind find place calls = .ok chain) :
    bind find other calls = .ok chain := by
  induction calls generalizing chain with
  | nil => exact h
  | cons call rest ih =>
    rw [bind] at h ⊢
    split at h
    · cases h
    · obtain ⟨later, hlater, rfl⟩ := Computation.map_eq_ok.mp h
      rw [ih hlater]
      rfl

namespace BoundExpression

variable {find : FindFilter} {place other : Place}

/-- The place of an expression shows only in failures. -/
theorem bind_of_place {e : Expression} {b : BoundExpression} (h : bind find place e = .ok b) :
    bind find other e = .ok b := by
  obtain ⟨chain, hchain, rfl⟩ := Computation.map_eq_ok.mp h
  exact Computation.map_eq_ok.mpr ⟨chain, FilterChain.bind_of_place hchain, rfl⟩

theorem ofText_of_place {text : String} {b : BoundExpression}
    (h : ofText find place text = .ok b) : ofText find other text = .ok b := by
  unfold ofText at h ⊢
  split at h
  · exact bind_of_place h
  · cases h

theorem ofTexts_of_place {texts : List String} {bs : List BoundExpression}
    (h : ofTexts find place texts = .ok bs) : ofTexts find other texts = .ok bs := by
  induction texts generalizing bs with
  | nil => exact h
  | cons text rest ih =>
    rw [ofTexts] at h ⊢
    split at h
    · next b hb =>
      obtain ⟨later, hlater, rfl⟩ := Computation.map_eq_ok.mp h
      rw [ofText_of_place hb, ih hlater]
      rfl
    · cases h

end BoundExpression

namespace RawTag

/-- A raw tag in which the place of its use shows only in failures. -/
def IgnoresPlace (tag : RawTag) : Prop :=
  ∀ (input : RawTagInput) (span : Span) (f : Fragment), tag.compile input = .ok f →
    tag.compile { input with span } = .ok f

theorem ignoresPlace_set : set.IgnoresPlace := by
  intro input span f h
  unfold set at h ⊢
  dsimp only at h ⊢
  split at h
  · cases h
  · split at h
    · next hname =>
      obtain ⟨b, hb, rfl⟩ := Computation.map_eq_ok.mp h
      rw [if_pos hname]
      exact Computation.map_eq_ok.mpr ⟨b, BoundExpression.ofText_of_place hb, rfl⟩
    · cases h

theorem ignoresPlace_autoescape : autoescape.IgnoresPlace := by
  intro input span f h
  unfold autoescape at h ⊢
  dsimp only [RawTagInput.arguments] at h ⊢
  split at h
  all_goals first | exact h | cases h

theorem ignoresPlace_spaceless : spaceless.IgnoresPlace := by
  intro input span f h
  unfold spaceless at h ⊢
  dsimp only at h ⊢
  split at h
  · next harguments => exact (if_pos harguments).trans h
  · cases h

theorem ignoresPlace_filter : filter.IgnoresPlace := by
  intro input span f h
  unfold filter at h ⊢
  dsimp only [RawTagInput.filterChain, FilterChain.ofText] at h ⊢
  split at h
  · cases h
  · next hraw =>
    rw [if_neg hraw]
    obtain ⟨chain, hchain, rfl⟩ := Computation.map_eq_ok.mp h
    split at hchain
    · exact Computation.map_eq_ok.mpr ⟨chain, FilterChain.bind_of_place hchain, rfl⟩
    · cases hchain

/-- The built-in tags show the place of their use only in failures. -/
theorem ignoresPlace_of_mem_builtins {entry : String × RawTag} (h : entry ∈ builtins) :
    entry.2.IgnoresPlace := by
  simp only [builtins, List.mem_cons, List.not_mem_nil, or_false] at h
  rcases h with rfl | rfl | rfl | rfl
  · exact ignoresPlace_set
  · exact ignoresPlace_autoescape
  · exact ignoresPlace_spaceless
  · exact ignoresPlace_filter

end RawTag

namespace Node

variable {r : Registry} {load : String → Expansion Template} {stack : IncludeStack}

private theorem instruction_of_place (hr : r.HasBuiltinTags) {name : String} {tag : RawTag}
    (htag : r.tag? name = some (.raw tag)) {head : TagHead} {span other : Span}
    {body : Option Body} {i : Instruction} (h : tag.instruction r head span body = .ok i) :
    tag.instruction r head other body = .ok i := by
  obtain ⟨-, hraw⟩ := Registry.tag?_eq_raw htag
  rw [hr] at hraw
  have hmem := Fields.mem_ofList (Fields.mem_of_find? hraw)
  obtain ⟨f, hf, rfl⟩ := Computation.map_eq_ok.mp h
  exact Computation.map_eq_ok.mpr
    ⟨f, RawTag.ignoresPlace_of_mem_builtins hmem _ other f hf, rfl⟩

private theorem bodyOf_of_place {kind : TagKind} {x y : Expansion Body}
    (h : ∀ b, x stack = .ok b → y stack = .ok b) {body : Option Body}
    (hbody : bodyOf kind x stack = .ok body) : bodyOf kind y stack = .ok body := by
  cases kind with
  | standalone => exact hbody
  | block =>
    obtain ⟨b, hb, rfl⟩ := Computation.map_eq_ok.mp hbody
    exact Computation.map_eq_ok.mpr ⟨b, h b hb, rfl⟩

/-- The place of a tag shows only in failures, if that of the nodes in it does. -/
private theorem compile_tag_of_place (hr : r.HasBuiltinTags) {head : TagHead} {kind : TagKind}
    {children others : List Node} {span other : Span} {i : Instruction}
    (hbody : ∀ b, compileAll r load children stack = .ok b →
      compileAll r load others stack = .ok b)
    (h : compile r load (.tag head kind children span) stack = .ok i) :
    compile r load (.tag head kind others other) stack = .ok i := by
  rw [compile] at h ⊢
  cases htag : r.tag? head.name with
  | none =>
    rw [htag] at h
    cases h
  | some entry =>
    rw [htag] at h
    cases entry with
    | simple handler =>
      obtain ⟨arguments, harguments, h⟩ := Computation.bind_eq_ok.mp h
      obtain ⟨body, hown, h⟩ := Computation.bind_eq_ok.mp h
      dsimp only
      rw [BoundExpression.ofTexts_of_place (Expansion.eq_ok_of_ofExcept harguments)]
      exact Computation.bind_eq_ok.mpr ⟨body, bodyOf_of_place hbody hown, h⟩
    | raw handler =>
      obtain ⟨body, hown, h⟩ := Computation.bind_eq_ok.mp h
      refine Computation.bind_eq_ok.mpr ⟨body, bodyOf_of_place hbody hown, ?_⟩
      dsimp only
      rw [instruction_of_place hr htag (Expansion.eq_ok_of_ofExcept h)]
      rfl
    | inclusion =>
      cases hliteral : head.literal? with
      | none =>
        simp only [hliteral] at h
        cases h
      | some identifier =>
        simp only [hliteral] at h ⊢
        exact h

mutual

private theorem compile_of_unplaced (hr : r.HasBuiltinTags) : (node other : Node) →
    other.unplaced = node.unplaced → ∀ i, compile r load node stack = .ok i →
    compile r load other stack = .ok i
  | .text s, other, hsame, i, h => by
    cases other <;> cases hsame
    exact h
  | .output e span, other, hsame, i, h => by
    cases other <;> cases hsame
    rw [compile] at h ⊢
    obtain ⟨b, hb, rfl⟩ := Computation.map_eq_ok.mp h
    rw [BoundExpression.bind_of_place (Expansion.eq_ok_of_ofExcept hb)]
    rfl
  | .tag head kind children span, other, hsame, i, h => by
    cases other with
    | text s => cases hsame
    | output e span' => cases hsame
    | tag head' kind' others span' =>
      obtain ⟨rfl, rfl, hchildren, -⟩ := Node.tag.inj hsame
      exact compile_tag_of_place hr (compileAll_of_unplaced hr children others hchildren) h

/-- Nodes in other places are compiled to the same instructions. -/
theorem compileAll_of_unplaced (hr : r.HasBuiltinTags) : (nodes others : List Node) →
    unplacedAll others = unplacedAll nodes → ∀ body, compileAll r load nodes stack = .ok body →
    compileAll r load others stack = .ok body
  | [], others, hsame, body, h => by
    cases others <;> cases hsame
    exact h
  | node :: rest, others, hsame, body, h => by
    cases others with
    | nil => cases hsame
    | cons other others =>
      obtain ⟨hfirst, hrest⟩ := List.cons.inj hsame
      obtain ⟨i, later, hi, hlater, rfl⟩ := Expansion.compileAll_cons.mp h
      exact Expansion.compileAll_cons.mpr ⟨i, later, compile_of_unplaced hr node other hfirst i hi,
        compileAll_of_unplaced hr rest others hrest later hlater, rfl⟩

end

/-! ### Nodes of two texts -/

/-- Nodes in two parts are compiled one part after the other. -/
theorem compileAll_append {first second : List Node} {body : Body} :
    compileAll r load (first ++ second) stack = .ok body ↔ ∃ a b,
      compileAll r load first stack = .ok a ∧ compileAll r load second stack = .ok b ∧
        a ++ b = body := by
  induction first generalizing body with
  | nil =>
    constructor
    · intro h
      exact ⟨[], body, rfl, h, rfl⟩
    · rintro ⟨_, b, ⟨⟩, h, rfl⟩
      exact h
  | cons node first ih =>
    rw [List.cons_append, Expansion.compileAll_cons]
    constructor
    · rintro ⟨i, later, hi, hlater, rfl⟩
      obtain ⟨a, b, ha, hb, rfl⟩ := ih.mp hlater
      exact ⟨i :: a, b, Expansion.compileAll_cons.mpr ⟨i, a, hi, ha, rfl⟩, hb, rfl⟩
    · rintro ⟨_, b, h, hb, rfl⟩
      obtain ⟨i, a, hi, ha, rfl⟩ := Expansion.compileAll_cons.mp h
      exact ⟨i, a ++ b, hi, ih.mpr ⟨a, b, ha, hb, rfl⟩, rfl⟩

private theorem write_append (s t : String) :
    Render.write (s ++ t) = (do Render.write s; Render.write t) := by
  funext state
  simp [Render.write, String.append_assoc]

/-- Nodes of two texts that are joined run like those of the first text and then those of the second
one. -/
theorem exists_compileAll_of_joins {first second joined : List Node}
    (hjoins : Joins first second joined) {a b : Body}
    (ha : compileAll r load first stack = .ok a) (hb : compileAll r load second stack = .ok b) :
    ∃ body, compileAll r load joined stack = .ok body ∧
      Instruction.runAll body = (do Instruction.runAll a; Instruction.runAll b) := by
  cases hjoins with
  | apart =>
    exact ⟨a ++ b, compileAll_append.mpr ⟨a, b, ha, hb, rfl⟩, Instruction.runAll_append a b⟩
  | @text front back s t =>
    obtain ⟨front', _, hfront, ⟨⟩, rfl⟩ := compileAll_append.mp ha
    obtain ⟨_, back', ⟨⟩, hback, rfl⟩ := Expansion.compileAll_cons.mp hb
    have hjoined : compileAll r load (.text (s ++ t) :: back) stack = .ok (.text (s ++ t) :: back') :=
      Expansion.compileAll_cons.mpr ⟨_, back', rfl, hback, rfl⟩
    refine ⟨_, compileAll_append.mpr ⟨front', _, hfront, hjoined, rfl⟩, ?_⟩
    simp [Instruction.runAll_append, Instruction.runAll, Instruction.run, write_append]

end Node

/-- The template of two texts in one runs like that of the first text and then that of the second
one, unless a brace at the end of the first text goes on with the second one. -/
theorem Expansion.exists_ofIdentity_append {r : Registry} (hr : r.HasBuiltinTags)
    {fs : FileSystem} {s t : String} {u v : Template}
    (hs : ofIdentity r fs (.source s) .empty = .ok u)
    (ht : ofIdentity r fs (.source t) .empty = .ok v) (hlast : s.toList.getLast? ≠ some '\x7b') :
    ∃ w, ofIdentity r fs (.source (s ++ t)) .empty = .ok w ∧
      Instruction.runAll w.body = (do Instruction.runAll u.body; Instruction.runAll v.body) := by
  -- Which text is being compiled shows in no file that it includes.
  have hfile {source : String} {b : Body}
      (h : body r (file r fs) (.ok source) ⟨[.source source]⟩ = .ok b) :
      body r (file r fs) (.ok source) ⟨[.source (s ++ t)]⟩ = .ok b := by
    rw [← h]
    exact body_congr fun _ _ _ _ identifier _ ↦ file_congr identifier fun _ ↦ rfl
  obtain ⟨-, a, ha, rfl⟩ := template_eq_ok.mp hs
  obtain ⟨-, b, hb, rfl⟩ := template_eq_ok.mp ht
  obtain ⟨_, first, ⟨⟩, hfirst, ha⟩ := body_eq_ok.mp (hfile ha)
  obtain ⟨_, second, ⟨⟩, hsecond, hb⟩ := body_eq_ok.mp (hfile hb)
  obtain ⟨joined, found, hjoins, hfound, hsame⟩ := Node.exists_parse_append hfirst hsecond hlast
  obtain ⟨whole, hwhole, hrun⟩ := Node.exists_compileAll_of_joins hjoins ha hb
  have hbody := Node.compileAll_of_unplaced hr joined found hsame whole hwhole
  exact ⟨_, template_eq_ok.mpr ⟨rfl, whole, body_eq_ok.mpr ⟨_, found, rfl, hfound, hbody⟩, rfl⟩,
    hrun⟩

/-! ### Escaping at the end of a template -/

namespace Interpretation

/-- A step at the end of which output is escaped if it was at its start, unless the step fails. -/
def KeepsEscaping {α : Type} (x : Interpretation α) : Prop :=
  ∀ (s : Surroundings) (a : α) (after : Surroundings), x s = .ok (a, after) →
    after.autoescape = s.autoescape

variable {α β : Type} {x y : Interpretation α} {r : Registry} {place : Place} {head : TagHead}

theorem keepsEscaping_pure (a : α) : KeepsEscaping (pure a) := by
  intro s b after h
  cases h
  rfl

theorem keepsEscaping_throw (e : Error) : KeepsEscaping (throw e : Interpretation α) := by
  intro s a after h
  cases h

theorem keepsEscaping_get : KeepsEscaping (get : Interpretation Surroundings) := by
  intro s a after h
  cases h
  rfl

theorem keepsEscaping_ofExcept (outcome : Except Error α) :
    KeepsEscaping (ofExcept outcome : Interpretation α) := by
  intro s a after h
  rw [ofExcept_apply] at h
  obtain ⟨_, -, h⟩ := Computation.map_eq_ok.mp h
  cases h
  rfl

theorem keepsEscaping_modify {f : Surroundings → Surroundings}
    (hf : ∀ s, (f s).autoescape = s.autoescape) :
    KeepsEscaping (modify f : Interpretation PUnit) := by
  intro s a after h
  cases h
  exact hf s

theorem KeepsEscaping.bind (hx : KeepsEscaping x) {f : α → Interpretation β}
    (hf : ∀ a, KeepsEscaping (f a)) : KeepsEscaping (x >>= f) := by
  intro s b after h
  obtain ⟨a, middle, hfirst, hsecond⟩ := bind_eq_ok.mp h
  exact (hf a middle b after hsecond).trans (hx s a middle hfirst)

/-- Escaping that is switched for a body is switched back after it, whatever the body does. -/
theorem keepsEscaping_withAutoescape (flag : Bool) (body : Interpretation String) :
    KeepsEscaping (withAutoescape flag body) := by
  intro s output after h
  unfold withAutoescape at h
  obtain ⟨_, _, ⟨⟩, h⟩ := bind_eq_ok.mp h
  obtain ⟨_, _, ⟨⟩, h⟩ := bind_eq_ok.mp h
  obtain ⟨text, inner, -, h⟩ := bind_eq_ok.mp h
  obtain ⟨_, _, ⟨⟩, h⟩ := bind_eq_ok.mp h
  cases h
  rfl

theorem keepsEscaping_expression (e : Expression) : KeepsEscaping (expression r place e) :=
  keepsEscaping_get.bind fun _ ↦ keepsEscaping_ofExcept _

theorem keepsEscaping_expressionText (text : String) :
    KeepsEscaping (expressionText r place text) := by
  unfold expressionText
  split
  · exact keepsEscaping_expression _
  · exact keepsEscaping_throw _

theorem keepsEscaping_expressionTexts (texts : List String) :
    KeepsEscaping (expressionTexts r place texts) := by
  induction texts with
  | nil => exact keepsEscaping_pure []
  | cons text rest ih =>
    exact (keepsEscaping_expressionText text).bind fun _ ↦ ih.bind fun _ ↦ keepsEscaping_pure _

theorem keepsEscaping_output (e : Expression) : KeepsEscaping (output r place e) := by
  refine (keepsEscaping_expression e).bind fun v ↦ keepsEscaping_get.bind fun s ↦ ?_
  split <;> exact keepsEscaping_pure _

theorem keepsEscaping_set : KeepsEscaping (set r place head) := by
  unfold set
  split
  · exact keepsEscaping_throw _
  · dsimp only
    split
    · refine (keepsEscaping_expressionText _).bind fun v ↦
        KeepsEscaping.bind ?_ fun _ ↦ keepsEscaping_pure ""
      exact keepsEscaping_modify fun _ ↦ rfl
    · exact keepsEscaping_throw _

theorem keepsEscaping_autoescape (body : Interpretation String) :
    KeepsEscaping (autoescape place head body) := by
  unfold autoescape
  split
  · exact keepsEscaping_withAutoescape _ _
  · exact keepsEscaping_withAutoescape _ _
  · exact keepsEscaping_withAutoescape _ _
  · exact keepsEscaping_throw _

section Bodies

variable {body : Interpretation String}

theorem KeepsEscaping.spaceless (hbody : KeepsEscaping body) :
    KeepsEscaping (spaceless place head body) := by
  unfold Interpretation.spaceless
  split
  · exact hbody.bind fun _ ↦ keepsEscaping_pure _
  · exact keepsEscaping_throw _

theorem KeepsEscaping.filter (hbody : KeepsEscaping body) :
    KeepsEscaping (filter r place head body) := by
  unfold Interpretation.filter
  split
  · exact keepsEscaping_throw _
  · split
    · exact keepsEscaping_throw _
    · exact hbody.bind fun _ ↦ keepsEscaping_get.bind fun _ ↦
        (keepsEscaping_ofExcept _).bind fun _ ↦ keepsEscaping_pure _

theorem KeepsEscaping.bodyOf (hbody : KeepsEscaping body) (kind : TagKind) :
    KeepsEscaping (bodyOf kind body) := by
  cases kind with
  | block => exact hbody
  | standalone => exact keepsEscaping_pure ""

variable {inclusion : String → Interpretation String}

theorem KeepsEscaping.tag (hinclusion : ∀ identifier, KeepsEscaping (inclusion identifier))
    (hbody : KeepsEscaping body) : KeepsEscaping (tag r place inclusion head body) := by
  unfold Interpretation.tag
  split
  · refine (keepsEscaping_expressionTexts _).bind fun values ↦ ?_
    split
    · exact keepsEscaping_pure _
    · exact hbody
  · split
    · exact keepsEscaping_set
    · split
      · exact keepsEscaping_autoescape body
      · split
        · exact hbody.spaceless
        · split
          · exact hbody.filter
          · split
            · split
              · exact hinclusion _
              · exact keepsEscaping_throw _
            · exact keepsEscaping_throw _

mutual

theorem keepsEscaping_node (hinclusion : ∀ identifier, KeepsEscaping (inclusion identifier)) :
    (n : Node) → KeepsEscaping (node r inclusion n)
  | .text s => keepsEscaping_pure s
  | .output e span => keepsEscaping_output e
  | .tag head kind children span => by
    rw [node]
    exact .tag hinclusion ((keepsEscaping_nodes hinclusion children).bodyOf kind)

theorem keepsEscaping_nodes (hinclusion : ∀ identifier, KeepsEscaping (inclusion identifier)) :
    (ns : List Node) → KeepsEscaping (nodes r inclusion ns)
  | [] => keepsEscaping_pure ""
  | first :: rest =>
    (keepsEscaping_node hinclusion first).bind fun _ ↦
      (keepsEscaping_nodes hinclusion rest).bind fun _ ↦ keepsEscaping_pure _

end

theorem keepsEscaping_source (hinclusion : ∀ identifier, KeepsEscaping (inclusion identifier))
    (text : String) : KeepsEscaping (source r inclusion text) :=
  (keepsEscaping_ofExcept _).bind fun found ↦ keepsEscaping_nodes hinclusion found

end Bodies

/-- At the end of a file that is interpreted output is escaped if it was at its start. -/
theorem keepsEscaping_file (fs : FileSystem) (depth : Nat) (identifier : String) :
    KeepsEscaping (file r fs depth identifier) := by
  induction depth generalizing identifier with
  | zero => exact keepsEscaping_throw _
  | succ depth ih =>
    rw [file]
    split
    · exact (keepsEscaping_ofExcept _).bind fun path ↦
        (keepsEscaping_ofExcept _).bind fun text ↦ keepsEscaping_source ih text
    · exact keepsEscaping_throw _

end Interpretation

/-! ### Rendering one template after the other -/

namespace Template

variable {r : Registry} {t u w : Template}

/-- The scope that rendering a template leaves behind. -/
def scopeAfter (t : Template) (scope : Scope) (calls : CallLog) : Scope :=
  (Body.write t.body (t.initialState scope calls)).2.scope

/-- Render a template, and another one in the scope that the first one leaves behind, with its output
after that of the first one. If either fails, its error comes out. -/
def renderThen (t u : Template) (scope : Scope) (calls : CallLog) : Except Error String × CallLog :=
  match t.render scope calls with
  | (.ok output, between) =>
    let (more, after) := u.render (t.scopeAfter scope calls) between
    (more.map (output ++ ·), after)
  | (.error e, after) => (.error e, after)

/-- A template that is run after some output adds to it what it renders, if output is escaped as it
is at the start of the template. -/
theorem answerOf_run (hstrict : t.registry.policy = .strict) {x : Interpretation String}
    (hx : Writes x (Instruction.runAll t.body)) {s : RenderState}
    (hs : s.autoescape = t.registry.autoescape) :
    answerOf (Instruction.runAll t.body s) =
      ((t.render s.scope s.calls).1.map (s.output ++ ·), (t.render s.scope s.calls).2) := by
  rw [render_of_strict hstrict, hx.answerOf, hx.answerOf, initialState, ← hs]
  cases x ⟨s.scope, s.autoescape⟩ with
  | error e => rfl
  | ok result => simp [Except.map]

/-- A template that runs like one and then another one renders like the first one and then the other
one. -/
theorem render_eq_renderThen (hstrict : r.policy = .strict) (ht : t.registry = r)
    (hu : u.registry = r) (hw : w.registry = r) {x y : Interpretation String}
    (hx : Writes x (Instruction.runAll t.body)) (hy : Writes y (Instruction.runAll u.body))
    (hkeeps : x.KeepsEscaping)
    (hrun : Instruction.runAll w.body =
      (do Instruction.runAll t.body; Instruction.runAll u.body))
    (scope : Scope) (calls : CallLog) : w.render scope calls = t.renderThen u scope calls := by
  subst ht
  have hstart : w.initialState scope calls = t.initialState scope calls := by
    rw [initialState, hw]
    rfl
  rw [render_of_strict (hw ▸ hstrict), hrun, hstart, Computation.bind_apply, renderThen, scopeAfter,
    render_of_strict hstrict, Body.write]
  have hends := hx.ends (t.initialState scope calls)
  rcases hfirst : Instruction.runAll t.body (t.initialState scope calls) with ⟨e | ⟨⟩, after⟩
  · rfl
  · have hescaped : after.autoescape = u.registry.autoescape := by
      rw [hfirst] at hends
      rcases hinterpreted : x ⟨scope, t.registry.autoescape⟩ with e | ⟨output, last⟩ <;>
        rw [initialState, hinterpreted] at hends
      · obtain ⟨_, hends, -⟩ := hends
        cases hends
      · rw [endsLike_ok] at hends
        cases hends
        rw [hu]
        exact hkeeps _ _ _ hinterpreted
    exact answerOf_run (hu ▸ hstrict) hy hescaped

end Template

/-- A strict engine that has compiled two texts also compiles the first one followed by the second
one, if the raw tags are the built-in ones and the first text does not end with an opening brace. In
every scope what comes out renders the first text, and then the second one in the scope that the
first one leaves behind. -/
theorem Engine.compile_append {r : Registry} (hr : r.HasBuiltinTags) (hstrict : r.policy = .strict)
    {fs : FileSystem} {serial : Nat} {earlier earlier' : List Request} {s s' : String}
    {t t' : Template} (h : (((Engine.fresh r serial).served fs earlier).compile fs s).1 = .ok t)
    (h' : (((Engine.fresh r serial).served fs earlier').compile fs s').1 = .ok t')
    (hlast : s.toList.getLast? ≠ some '\x7b') (later : List Request) :
    ∃ w, (((Engine.fresh r serial).served fs later).compile fs (s ++ s')).1 = .ok w ∧
      ∀ scope calls, w.render scope calls = t.renderThen t' scope calls := by
  have hserved (requests : List Request) :
      ((Engine.fresh r serial).served fs requests).registry = r ∧
        ((Engine.fresh r serial).served fs requests).loading.Sound r r fs :=
    sound_served rfl (sound_empty serial r.cache) (.refl r) hr.isPure requests
  have hexpands {requests : List Request} {source : String} {a : Template}
      (ha : (((Engine.fresh r serial).served fs requests).compile fs source).1 = .ok a) :
      ∃ u, Expansion.ofIdentity r fs (.source source) .empty = .ok u ∧ a.registry = r ∧
        Instruction.runAll a.body = Instruction.runAll u.body := by
    obtain ⟨hregistry, hsound⟩ := hserved requests
    obtain ⟨u, hu, hagrees⟩ :=
      expands_of_answer hr hstrict hregistry hsound (q := .text source) ha
    exact ⟨u, hu, hagrees.registry, Instruction.runAll_eq_of_same _ _ hagrees.body⟩
  have hwrites {source : String} {u : Template}
      (hu : Expansion.ofIdentity r fs (.source source) .empty = .ok u) :=
    writes_request hr (q := .text source) hu (Nat.le_refl _)
  obtain ⟨u, hu, hregistry, hbody⟩ := hexpands h
  obtain ⟨u', hu', hregistry', hbody'⟩ := hexpands h'
  -- The whole text is expanded to what runs like the two, and so is what the engine answers.
  obtain ⟨v, hv, hrun⟩ := Expansion.exists_ofIdentity_append hr hu hu' hlast
  obtain ⟨hanswer, -⟩ :=
    answer_expands (hserved later).1 (hserved later).2 (.refl r) hr.isPure (.text (s ++ s'))
  rw [Expansion.ofRequest, hv] at hanswer
  obtain ⟨w, hw, hagrees⟩ := hanswer
  refine ⟨w, hw, ?_⟩
  rw [← Instruction.runAll_eq_of_same _ _ hagrees.body, ← hbody, ← hbody'] at hrun
  exact Template.render_eq_renderThen hstrict hregistry hregistry' hagrees.registry
    (hbody ▸ hwrites hu) (hbody' ▸ hwrites hu')
    (Interpretation.keepsEscaping_source (Interpretation.keepsEscaping_file fs _) s) hrun

/-- A text that includes a file and ends with a brace. -/
def inclusionThenBrace : String := "\x7b% include \"a\" %\x7d\x7d"

/-- A text that begins with a brace and shows the name that the file binds. -/
def braceThenOutput : String := "\x7d\x7b\x7b y \x7d\x7d"

/-- The braces at the seam become one mark, and the second text reads what a file that the first one
includes has bound. -/
theorem Engine.compile_append_inclusion :
    ∃ t t', (((Engine.fresh .strictDefault 1).served .oneInclusion []).compile .oneInclusion
        inclusionThenBrace).1 = .ok t ∧
      (((Engine.fresh .strictDefault 1).served .oneInclusion [.file "a"]).compile .oneInclusion
        braceThenOutput).1 = .ok t' ∧
      inclusionThenBrace.toList.getLast? ≠ some '\x7b' ∧
      ∃ w, (((Engine.fresh .strictDefault 1).served .oneInclusion
          [.text inclusionThenBrace, .text braceThenOutput]).compile .oneInclusion
            (inclusionThenBrace ++ braceThenOutput)).1 = .ok w ∧
        ∀ scope calls, w.render scope calls = t.renderThen t' scope calls := by
  have hfirst : (((Engine.fresh .strictDefault 1).served .oneInclusion []).compile .oneInclusion
      inclusionThenBrace).1.isOk = true := by decide +kernel
  have hsecond : (((Engine.fresh .strictDefault 1).served .oneInclusion [.file "a"]).compile
      .oneInclusion braceThenOutput).1.isOk = true := by decide +kernel
  have hlast : inclusionThenBrace.toList.getLast? ≠ some '\x7b' := by decide +kernel
  obtain ⟨t, ht⟩ := Computation.exists_eq_ok_of_isOk hfirst
  obtain ⟨t', ht'⟩ := Computation.exists_eq_ok_of_isOk hsecond
  exact ⟨t, t', ht, ht', hlast,
    compile_append Registry.hasBuiltinTags_strictDefault rfl ht ht' hlast _⟩

end Stencil
