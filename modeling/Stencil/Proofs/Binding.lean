import Stencil.Proofs.Blanks
import Stencil.Proofs.Concatenation
import Stencil.Proofs.Escaping

/-!
# Bindings that are read back

A `set` tag binds a name to the value of an expression, whose code may be spaced as it likes. An
output of the name alone then shows what an output of the expression would show, unless the name is a
word with a meaning of its own: the tag takes such a word for a name, and an output does not.
-/

namespace Stencil

/-! ### Names -/

/-- What a name alone refers to. A word with a meaning of its own is its value. -/
def Expr.ofName (name : String) : Expr :=
  match Expression.keyword? name with
  | some value => .literal value
  | none => .named name

theorem Lexeme.isBlank_of_isSpace {c : Char} (h : isSpace c = true) : Text.isBlank c = true := by
  simp only [isSpace, Bool.or_eq_true, beq_iff_eq] at h
  obtain ((rfl | rfl) | rfl) | rfl := h <;> rfl

namespace RawTag

variable {name : String}

theorem isWordPart_of_isName (h : isName name.toList = true) :
    ∀ c ∈ name.toList, Lexeme.isWordPart c = true := by
  intro c hc
  cases hname : name.toList with
  | nil =>
    rw [hname] at hc
    cases hc
  | cons first rest =>
    rw [hname] at h hc
    rw [isName, Bool.and_eq_true, List.all_eq_true] at h
    rcases List.mem_cons.mp hc with rfl | hc
    · rw [Lexeme.isWordPart, h.1, Bool.true_or]
    · exact h.2 c hc

theorem toList_ne_of_isName (h : isName name.toList = true) : name.toList ≠ [] := by
  intro hempty
  rw [hempty] at h
  cases h

/-- A name that can be bound has no blank in it. -/
theorem isBlank_of_isName (h : isName name.toList = true) :
    ∀ c ∈ name.toList, Text.isBlank c = false := by
  intro c hc
  by_contra hblank
  have hpart := Lexeme.isWordPart_of_isBlank (Bool.of_not_eq_false hblank)
  rw [isWordPart_of_isName h c hc] at hpart
  cases hpart

/-- Nor does a text begin with a blank that begins with such a name. -/
theorem isBlank_head?_of_isName (h : isName name.toList = true) (cs : List Char) :
    ∀ c ∈ (name.toList ++ cs).head?, Text.isBlank c = false := by
  rw [List.head?_append_of_ne_nil _ (toList_ne_of_isName h)]
  exact fun c hc ↦ isBlank_of_isName h c (List.mem_of_head? hc)

/-- A space after such a name is trimmed away. -/
theorem trim_concat_of_isName (h : isName name.toList = true) :
    Text.trim (name.toList ++ [' ']) = name.toList := by
  rw [Text.trim, Text.trimStart_eq_self (isBlank_head?_of_isName h _), Text.trimEnd_append,
    Text.trimEnd_eq_self]
  · exact fun c hc ↦ isBlank_of_isName h c (List.mem_of_getLast? hc)
  · exact List.forall_mem_singleton.mpr rfl

end RawTag

/-- A name that can be bound is an expression without filters. -/
theorem Expression.parse_name {name : String} (h : RawTag.isName name.toList = true) :
    parse name = .ok ⟨.ofName name, []⟩ := by
  cases hname : name.toList with
  | nil =>
    rw [hname] at h
    cases h
  | cons first rest =>
    have hblank := RawTag.isBlank_of_isName h
    rw [hname] at h hblank
    rw [RawTag.isName, Bool.and_eq_true, List.all_eq_true] at h
    have hspace : Lexeme.isSpace first = false := by
      by_contra hspace
      have hfirst := Lexeme.isBlank_of_isSpace (Bool.of_not_eq_false hspace)
      rw [hblank first List.mem_cons_self] at hfirst
      cases hfirst
    have htake : Lexeme.take first rest = .ok (.word name, []) := by
      rw [Lexeme.take, if_pos h.1, List.takeWhile_eq_self_iff.mpr h.2,
        List.dropWhile_eq_nil_iff.mpr h.2, ← hname, String.ofList_toList]
    refine parse_eq_ok.mpr ⟨[.word name], ?_, ?_⟩
    · rw [hname]
      exact (Lexeme.ofText_cons_eq_ok hspace).mpr ⟨_, _, [], htake, by rw [Lexeme.ofText], rfl⟩
    · rw [ofLexemes, value, Expr.ofName]
      cases keyword? name <;> simp [path, calls, Except.map]

/-! ### The tag -/

/-- The opening of a tag that binds a name to the expression of some code. -/
def TagHead.binding (name code : String) : TagHead :=
  ⟨"set", name ++ " = " ++ String.ofList (Text.trimEnd code.toList)⟩

section Binding

variable {name code : String} {e : Expression}

private theorem toList_raw : (TagHead.binding name code).raw.toList =
    (name.toList ++ [' ']) ++ '=' :: ' ' :: Text.trimEnd code.toList := by
  simp [TagHead.binding]

private theorem spelledBy_binding : (TagHead.binding name code).SpelledBy
    (" set " ++ name ++ " = " ++ code ++ " ").toList := by
  obtain ⟨blanks, hblanks, hcode⟩ := Text.exists_trimEnd_append code.toList
  refine ⟨[' '], [' '], blanks ++ [' '], ?_, nofun, ?_⟩
  · have hspace : Text.isBlank ' ' = true := rfl
    simp only [List.mem_append, List.mem_singleton, or_imp, forall_and, forall_eq]
    exact ⟨⟨hspace, hspace⟩, hblanks, hspace⟩
  · rw [toList_raw]
    simp only [TagHead.binding, String.toList_append, List.append_assoc, List.cons_append]
    rw [← List.append_assoc (Text.trimEnd code.toList), hcode]
    rfl

/-- The tag splits what follows its name at the equals sign after the name to bind. -/
private theorem splitBinding?_raw (hname : RawTag.isName name.toList = true) :
    RawTag.splitBinding? (TagHead.binding name code).raw.toList =
      some (name.toList ++ [' '], ' ' :: Text.trimEnd code.toList) := by
  have hleft : ∀ c ∈ name.toList ++ [' '], decide (c ≠ '=') = true := by
    intro c hc
    rw [decide_eq_true_eq]
    rintro rfl
    rcases List.mem_append.mp hc with hc | hc
    · cases RawTag.isWordPart_of_isName hname '=' hc
    · cases List.mem_singleton.mp hc
  rw [RawTag.splitBinding?, toList_raw, List.dropWhile_append_of_pos hleft,
    List.takeWhile_append_of_pos hleft]
  simp

private theorem parse_trimmed (hparse : Expression.parse code = .ok e) :
    Expression.parse (String.ofList (Text.trimEnd code.toList)) = .ok e :=
  Expression.parse_trimEnd (by rwa [String.ofList_toList])

variable (hname : RawTag.isName name.toList = true) (hparse : Expression.parse code = .ok e)

include hname hparse

/-- What follows the name of the tag is trimmed, and it is sealed as its parts are. -/
private theorem isPrintable_binding : (TagHead.binding name code).IsPrintable := by
  have hword : TagHead.IsPrintable ⟨"set", ""⟩ := by decide
  have hcode := parse_trimmed hparse
  have hne : Text.trimEnd code.toList ≠ [] := by
    rw [← String.toList_ofList (l := Text.trimEnd code.toList)]
    exact Expression.toList_ne_of_parse hcode
  refine ⟨hword.name_ne, hword.isBlank_name, hword.isPlain_name, ?_, ?_⟩ <;> rw [toList_raw]
  · rw [Text.trim, Text.trimStart_eq_self, Text.trimEnd_eq_self]
    · have hequals : '=' :: ' ' :: Text.trimEnd code.toList = ['=', ' '] ++ Text.trimEnd code.toList :=
        rfl
      rw [hequals, ← List.append_assoc, List.getLast?_append_of_ne_nil _ hne]
      exact Text.isBlank_getLast?_trimEnd _
    · rw [List.append_assoc]
      exact RawTag.isBlank_head?_of_isName hname _
  · have hplain : Text.Sealed .bare name.toList := Text.sealed_of_isPlain fun c hc ↦
      Text.isPlain_of (by decide) (RawTag.isWordPart_of_isName hname c hc)
    have hsealed := Expression.sealed_of_parse hcode
    rw [String.toList_ofList] at hsealed
    have hequals : Text.Sealed .bare [' ', '=', ' '] := by decide
    have hall := hplain.append (hequals.append hsealed)
    rwa [List.append_assoc]

/-- The tag binds the name to the value of the expression. -/
private theorem instruction_binding (r : Registry) (span : Span) :
    RawTag.set.instruction r (.binding name code) span none =
      (BoundExpression.bind r.filter? span.start.place e).map fun b ↦
        .fragment ⟨do Render.bind name (← Render.evaluate b)⟩ := by
  have hright : Expression.parse
      (String.ofList (Text.trim (' ' :: Text.trimEnd code.toList))) = .ok e := by
    have hspace := (Expression.parse_cons_blank (b := ' ') rfl).mpr ⟨rfl, parse_trimmed hparse⟩
    exact Expression.parse_trim hspace
  unfold RawTag.instruction RawTag.set
  dsimp only
  rw [splitBinding?_raw hname]
  dsimp only
  rw [RawTag.trim_concat_of_isName hname, String.ofList_toList, if_pos hname, RawTagInput.expression, BoundExpression.ofText,
    hright]
  dsimp only [RawTagInput.place]
  cases BoundExpression.bind r.filter? span.start.place e <;> rfl

end Binding

/-! ### The two texts -/

namespace Node

/-- A tag that binds a name to the expression of some code, and an output of the name. -/
def boundThenShown (name code : String) : String :=
  "\x7b% set " ++ name ++ " = " ++ code ++ " %\x7d" ++ Expression.shown name

/-- The nodes of this text, without their places. -/
private def binding (name code : String) : List Node :=
  [.tag (.binding name code) .standalone [] ⟨.origin, .origin⟩,
    .output ⟨.ofName name, []⟩ ⟨.origin, .origin⟩]

variable {r : Registry} {name code : String} {e : Expression}

/-- Nodes that do not begin with literal text stay apart from the nodes before them. -/
private theorem Joins.eq_append {first second joined : List Node} (h : Joins first second joined)
    (hsecond : beginWithText second = false) : joined = first ++ second := by
  cases h with
  | apart => rfl
  | text => cases hsecond

private theorem exists_parse_boundThenShown (hset : r.tag? "set" = some (.raw RawTag.set))
    (hname : RawTag.isName name.toList = true) (hparse : Expression.parse code = .ok e) :
    ∃ found, parse r.tagKind? (boundThenShown name code) = .ok found ∧
      unplacedAll found = binding name code := by
  have hkind : r.tagKind? "set" = some .standalone := by
    rw [Registry.tagKind?, hset]
    rfl
  have hfirst := parse_around_standalone r (isPrintable_binding hname hparse)
    spelledBy_binding hkind
  obtain ⟨stop, hsecond⟩ := parse_shown r (Expression.parse_name hname)
  have hlast : (String.ofList (Marker.tag.around
      (" set " ++ name ++ " = " ++ code ++ " ").toList)).toList.getLast? ≠ some '\x7b' := by
    rw [String.toList_ofList, Marker.around, List.getLast?_append_of_ne_nil _ (by decide)]
    decide
  obtain ⟨joined, found, hjoins, hfound, hsame⟩ := exists_parse_append hfirst hsecond hlast
  have hsource : String.ofList (Marker.tag.around
      (" set " ++ name ++ " = " ++ code ++ " ").toList) ++ Expression.shown name =
      boundThenShown name code := by
    rw [boundThenShown, ← String.toList_inj]
    simp [Marker.around, Marker.opener, Marker.closer]
  rw [hsource] at hfound
  rw [hjoins.eq_append rfl] at hsame
  exact ⟨found, hfound, hsame⟩

variable {load : String → Expansion Template} {stack : IncludeStack}

private theorem compileAll_shown (span : Span) :
    compileAll r load [.output e span] stack =
      (BoundExpression.bind r.filter? span.start.place e).map fun b ↦ [.output b] := by
  rw [compileAll, compile]
  cases BoundExpression.bind r.filter? span.start.place e <;> rfl

private theorem compileAll_binding (hset : r.tag? "set" = some (.raw RawTag.set))
    (hname : RawTag.isName name.toList = true) (hparse : Expression.parse code = .ok e) :
    compileAll r load (binding name code) stack =
      (BoundExpression.bind r.filter? Point.origin.place e).map fun b ↦
        [.fragment ⟨do Render.bind name (← Render.evaluate b)⟩, .output ⟨.ofName name, []⟩] := by
  have htag : r.tag? (TagHead.binding name code).name = some (.raw RawTag.set) := hset
  rw [binding, compileAll, compile, htag]
  dsimp only [bodyOf]
  rw [pure_bind, instruction_binding hname hparse]
  cases BoundExpression.bind r.filter? Point.origin.place e <;> rfl

end Node

/-! ### What is rendered -/

section Rendering

variable {name : String} {b : BoundExpression} {s : RenderState}

/-- Where nothing is escaped, an output shows the value of its expression. -/
private theorem answerOf_shown (hescape : s.autoescape = false) (hempty : s.output = "") :
    Template.answerOf (Instruction.runAll [.output b] s) =
      ((b.evaluate s.scope).map Value.display, s.calls) := by
  rw [Instruction.runAll, Instruction.run, Instruction.runAll, Computation.bind_apply]
  cases hvalue : b.evaluate s.scope with
  | error e =>
    have hfails : Render.writeExpression b s = (.error e, s) := by
      simp [Render.writeExpression, Render.evaluate, hvalue]
    rw [hfails]
    rfl
  | ok value =>
    rw [Render.writeExpression_apply hvalue]
    simp [Template.answerOf, Except.map, hescape, hempty]

/-- The name that was bound shows the value that it was bound to, or the one of its own. -/
private theorem answerOf_bound (hescape : s.autoescape = false) (hempty : s.output = "") :
    Template.answerOf (Instruction.runAll [.fragment ⟨do Render.bind name (← Render.evaluate b)⟩,
        .output ⟨.ofName name, []⟩] s) =
      ((b.evaluate s.scope).map fun value ↦
        ((Expression.keyword? name).getD value).display, s.calls) := by
  rw [Instruction.runAll, Instruction.run, Computation.bind_apply]
  cases hvalue : b.evaluate s.scope with
  | error e => simp [Render.evaluate, hvalue, Template.answerOf, Except.map]
  | ok value =>
    have hread : BoundExpression.evaluate (Fields.insert name value s.scope) ⟨.ofName name, []⟩ =
        .ok ((Expression.keyword? name).getD value) := by
      rw [BoundExpression.evaluate, Expr.ofName]
      cases Expression.keyword? name <;> simp [Expr.evaluate, FilterChain.apply]
    have hbound : (do Render.bind name (← Render.evaluate b) : Render Unit) s =
        (.ok (), { s with scope := Fields.insert name value s.scope }) := by
      simp [Render.evaluate, Render.bind, hvalue]
    have hshown := answerOf_shown (b := ⟨.ofName name, []⟩)
      (s := { s with scope := Fields.insert name value s.scope }) hescape hempty
    dsimp only at hshown ⊢
    rw [hbound]
    dsimp only
    rw [hshown, hread]
    rfl

end Rendering

/-! ### Engines -/

/-- A template runs like a body, under a registry. -/
private def Template.RunsLike (r : Registry) (body : Body) (t : Template) : Prop :=
  t.registry = r ∧ Instruction.runAll t.body = Instruction.runAll body

/-- A text compiles exactly when the filters of an expression can be bound, and then it runs like
what is built from the expression. -/
private def BuildsFrom (r : Registry) (build : BoundExpression → Body) :
    Except Error BoundExpression → Except Error Template → Prop
  | .ok b, .ok t => t.RunsLike r (build b)
  | .error _, .error _ => True
  | _, _ => False

namespace Engine

variable {r : Registry} {fs : FileSystem} {serial : Nat} {source : String} {nodes : List Node}

/-- A fresh strict engine compiles a text to what its nodes are expanded to. -/
private theorem compile_fresh (hr : r.HasBuiltinTags) (hstrict : r.policy = .strict)
    (hnodes : Node.parse r.tagKind? source = .ok nodes) :
    SameOutcome (Template.RunsLike r)
      (Node.compileAll r (Expansion.file r fs) nodes ⟨[.source source]⟩)
      ((fresh r serial).compile fs source).1 := by
  have hexpansion : Expansion.ofRequest r fs (.text source) .empty =
      (Node.compileAll r (Expansion.file r fs) nodes ⟨[.source source]⟩).map fun body ↦
        ⟨.source source, 0, r, body⟩ := by
    have hbody : Expansion.body r (Expansion.file r fs) (.ok source) ⟨[.source source]⟩ =
        Node.compileAll r (Expansion.file r fs) nodes ⟨[.source source]⟩ := by
      change (ofExcept (Node.parse r.tagKind? source) >>=
        Node.compileAll r (Expansion.file r fs)) ⟨[.source source]⟩ = _
      rw [hnodes]
      rfl
    change (Expansion.body r (Expansion.file r fs) (.ok source) ⟨[.source source]⟩).map _ = _
    rw [hbody]
  obtain ⟨hanswer, -⟩ := answer_expands (e := fresh r serial) rfl (sound_empty serial _) (.refl r)
    hr.isPure (.text source)
  rw [hexpansion] at hanswer
  change Answers r ((fresh r serial).compile fs source).1 _ at hanswer
  cases hbody : Node.compileAll r (Expansion.file r fs) nodes ⟨[.source source]⟩ with
  | error error =>
    have hcondition : (Policy.strict.isStrict || error.kind == .filesUnavailable) = true := rfl
    rw [hbody, Except.map, Answers, hstrict, if_pos hcondition] at hanswer
    rw [hanswer]
    rfl
  | ok body =>
    rw [hbody, Except.map] at hanswer
    obtain ⟨t, ht, hagrees⟩ := hanswer
    rw [ht]
    exact ⟨hagrees.registry, Instruction.runAll_eq_of_same _ _ hagrees.body⟩

/-- How nodes are compiled apart from their places decides how a text with such nodes compiles. -/
private theorem buildsFrom (hr : r.HasBuiltinTags) (hstrict : r.policy = .strict)
    {found : List Node} (hfound : Node.parse r.tagKind? source = .ok found)
    (hsame : Node.unplacedAll found = Node.unplacedAll nodes)
    {bound : Except Error BoundExpression} {build : BoundExpression → Body}
    (hnodes : Node.compileAll r (Expansion.file r fs) nodes ⟨[.source source]⟩ = bound.map build) :
    BuildsFrom r build bound ((fresh r serial).compile fs source).1 := by
  have hcompile := @compile_fresh r fs serial source found hr hstrict hfound
  generalize ((fresh r serial).compile fs source).1 = out at hcompile ⊢
  cases hbody : Node.compileAll r (Expansion.file r fs) found ⟨[.source source]⟩ with
  | error failure =>
    rw [hbody] at hcompile
    cases out with
    | ok t => exact hcompile.elim
    | error _ =>
      cases bound with
      | error _ => trivial
      | ok b =>
        have hplaced := Node.compileAll_of_unplaced hr nodes found hsame _ hnodes
        rw [hbody] at hplaced
        cases hplaced
  | ok body =>
    rw [hbody] at hcompile
    have hunplaced := Node.compileAll_of_unplaced hr found nodes hsame.symm body hbody
    rw [hnodes] at hunplaced
    obtain ⟨b, rfl, rfl⟩ := Computation.map_eq_ok.mp hunplaced
    cases out with
    | ok t => exact hcompile
    | error _ => exact hcompile.elim

variable {name code : String} {e : Expression}

private theorem buildsFrom_shown (hr : r.HasBuiltinTags) (hstrict : r.policy = .strict)
    (hparse : Expression.parse code = .ok e) :
    BuildsFrom r (fun b ↦ [.output b]) (BoundExpression.bind r.filter? Point.origin.place e)
      ((fresh r serial).compile fs (Expression.shown code)).1 := by
  obtain ⟨stop, hnodes⟩ := Node.parse_shown r hparse
  refine buildsFrom hr hstrict hnodes ?_ (Node.compileAll_shown ⟨.origin, .origin⟩)
  rfl

private theorem buildsFrom_binding (hr : r.HasBuiltinTags) (hstrict : r.policy = .strict)
    (hset : Fields.find? "set" r.simpleTags = none) (hname : RawTag.isName name.toList = true)
    (hparse : Expression.parse code = .ok e) :
    BuildsFrom r (fun b ↦ [.fragment ⟨do Render.bind name (← Render.evaluate b)⟩,
        .output ⟨.ofName name, []⟩]) (BoundExpression.bind r.filter? Point.origin.place e)
      ((fresh r serial).compile fs (Node.boundThenShown name code)).1 := by
  have htag : r.tag? "set" = some (.raw RawTag.set) := by
    rw [Registry.tag?, hset, hr]
    rfl
  obtain ⟨found, hfound, hsame⟩ := Node.exists_parse_boundThenShown htag hname hparse
  exact buildsFrom hr hstrict hfound (hsame.trans rfl) (Node.compileAll_binding htag hname hparse)

/-- A binding is read back. Take a fresh strict engine that escapes nothing and knows the built-in
tags, a name that the `set` tag accepts, and code that parses. The name bound to the code and shown
compiles exactly when the code shown does. Then both render the same in every scope, unless the name
is a word with a meaning of its own, which shows this meaning once the code has a value. -/
theorem render_boundThenShown (hr : r.HasBuiltinTags)
    (hset : Fields.find? "set" r.simpleTags = none) (hstrict : r.policy = .strict)
    (hescape : r.autoescape = false) (hname : RawTag.isName name.toList = true)
    (hparse : Expression.parse code = .ok e) :
    let bound := ((fresh r serial).compile fs (Node.boundThenShown name code)).1
    let shown := ((fresh r serial).compile fs (Expression.shown code)).1
    bound.isOk = shown.isOk ∧
    ∀ t u, bound = .ok t → shown = .ok u → ∀ scope calls,
      t.render scope calls = match Expression.keyword? name with
        | none => u.render scope calls
        | some word => ((u.render scope calls).1.map fun _ ↦ word.display, calls) := by
  have hbound := @buildsFrom_binding r fs serial name code e hr hstrict hset hname hparse
  have hshown := @buildsFrom_shown r fs serial code e hr hstrict hparse
  intro bound shown
  change BuildsFrom r _ _ bound at hbound
  change BuildsFrom r _ _ shown at hshown
  generalize bound = bound at hbound ⊢
  generalize shown = shown at hshown ⊢
  cases hbind : BoundExpression.bind r.filter? Point.origin.place e with
  | error _ =>
    rw [hbind] at hbound hshown
    cases bound <;> cases shown
    · exact ⟨rfl, fun _ _ h ↦ nomatch h⟩
    · exact hshown.elim
    · exact hbound.elim
    · exact hbound.elim
  | ok b =>
    rw [hbind] at hbound hshown
    cases bound <;> cases shown
    · exact hbound.elim
    · exact hbound.elim
    · exact hshown.elim
    refine ⟨rfl, ?_⟩
    rintro t u ⟨⟩ ⟨⟩ scope calls
    obtain ⟨hregistry, hrun⟩ := hbound
    obtain ⟨hregistry', hrun'⟩ := hshown
    have hstart : ∀ {v : Template}, v.registry = r →
        (v.initialState scope calls).autoescape = false := by
      rintro v rfl
      exact hescape
    rw [Template.render_of_strict (hregistry ▸ hstrict), hrun,
      answerOf_bound (hstart hregistry) rfl, Template.render_of_strict (hregistry' ▸ hstrict), hrun',
      answerOf_shown (hstart hregistry') rfl]
    dsimp only [Template.initialState]
    cases Expression.keyword? name with
    | none => rfl
    | some word => cases b.evaluate scope <;> rfl

/-- A name with a digit is bound to code with an equals sign and blanks around it, and read back. -/
theorem render_boundThenShown_equals :
    let r := { Registry.strictDefault with autoescape := false }
    let compiled source := ((fresh r 0).compile ⟨[], []⟩ source).1
    ∃ t u, compiled (Node.boundThenShown "x1" " a|default(\"=\") ") = .ok t ∧
      compiled (Expression.shown " a|default(\"=\") ") = .ok u ∧
      ∀ scope calls, t.render scope calls = u.render scope calls := by
  intro r compiled
  have hparse : (Expression.parse " a|default(\"=\") ").isOk = true := by decide +kernel
  obtain ⟨e, he⟩ := Computation.exists_eq_ok_of_isOk hparse
  obtain ⟨hok, hsame⟩ := @render_boundThenShown r ⟨[], []⟩ 0 "x1" _ e rfl rfl rfl rfl
    (by decide +kernel) he
  have hshown : (compiled (Expression.shown " a|default(\"=\") ")).isOk = true := by
    decide +kernel
  obtain ⟨u, hu⟩ := Computation.exists_eq_ok_of_isOk hshown
  obtain ⟨t, ht⟩ := Computation.exists_eq_ok_of_isOk (hok.trans hshown)
  exact ⟨t, u, ht, hu, hsame t u ht hu⟩

/-- A binding of the word `true` is accepted, and it is not read back: the word shows itself. -/
theorem exists_render_boundThenShown_ne :
    let r := { Registry.strictDefault with autoescape := false }
    let compiled source := ((fresh r 0).compile ⟨[], []⟩ source).1
    RawTag.isName "true".toList = true ∧ (Expression.parse "x").isOk = true ∧
    ∃ t u, compiled (Node.boundThenShown "true" "x") = .ok t ∧
      compiled (Expression.shown "x") = .ok u ∧
      (t.render [("x", .string "a")] []).1 = .ok "true" ∧
      (u.render [("x", .string "a")] []).1 = .ok "a" := by
  intro r compiled
  have hbound : (compiled (Node.boundThenShown "true" "x")).map
      (fun t ↦ (t.render [("x", .string "a")] []).1) = .ok (.ok "true") := by decide +kernel
  have hshown : (compiled (Expression.shown "x")).map
      (fun u ↦ (u.render [("x", .string "a")] []).1) = .ok (.ok "a") := by decide +kernel
  obtain ⟨t, ht, hrender⟩ := Computation.map_eq_ok.mp hbound
  obtain ⟨u, hu, hrender'⟩ := Computation.map_eq_ok.mp hshown
  exact ⟨by decide +kernel, by decide +kernel, t, u, ht, hu, hrender, hrender'⟩

end Engine

end Stencil
