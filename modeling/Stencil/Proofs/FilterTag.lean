import Stencil.Proofs.Arguments
import Stencil.Proofs.Blanks
import Stencil.Proofs.Escaping
import Stencil.Proofs.Judgment
import Stencil.Proofs.Layout

/-!
# Filter tags and filter chains

A filter chain is what may follow a bar in an expression. The filter tag sends what its body renders
through a chain, and an output sends a value through one: around the output of a name that stands
for a text, the tag renders what the name piped through the chain renders, with the same errors.
-/

namespace Stencil

/-! ### Chains behind a bar -/

namespace Expression

variable {code : String} {calls : List FilterCall} {e : Expression}

theorem parseChain_eq_ok : parseChain code = .ok calls ↔
    ∃ found, Lexeme.ofText code.toList = .ok found ∧ chainOfLexemes found = .ok calls := by
  rw [parseChain, lexemes]
  cases Lexeme.ofText code.toList <;> simp [Except.bind]

/-- The lexemes of a name, a bar and what follows it. -/
private theorem ofText_piped {cs : List Char} {lexemes : List Lexeme} :
    Lexeme.ofText ('x' :: '|' :: cs) = .ok lexemes ↔
      ∃ found, Lexeme.ofText cs = .ok found ∧ .word "x" :: .pipe :: found = lexemes := by
  have hname : Lexeme.take 'x' ('|' :: cs) = .ok (.word "x", '|' :: cs) := rfl
  have hbar : Lexeme.take '|' cs = .ok (.pipe, cs) := rfl
  have hspace : Lexeme.isSpace '|' = false := rfl
  rw [Lexeme.ofText_cons_eq_ok rfl, hname]
  simp [Lexeme.ofText_cons_eq_ok hspace, hbar]

/-- A name, a bar and a chain are an expression. -/
private theorem ofLexemes_piped (found : List Lexeme) :
    ofLexemes (.word "x" :: .pipe :: found) =
      (chainOfLexemes found).map fun calls ↦ ⟨.named "x", calls⟩ := by
  have hword : keyword? "x" = none := by decide
  have hpath : path (.named "x") (.pipe :: found) = .ok (.named "x", ⟨.pipe :: found, le_rfl⟩) := by
    simp [path]
  rw [ofLexemes, value, hword]
  dsimp only
  rw [hpath]
  dsimp only
  rw [calls, chainOfLexemes]
  cases call found <;> rfl

/-- What may follow a name and a bar is a filter chain. -/
theorem parse_piped : parse ("x|" ++ code) = .ok e ↔
    ∃ calls, parseChain code = .ok calls ∧ e = ⟨.named "x", calls⟩ := by
  have hcode : ("x|" ++ code).toList = 'x' :: '|' :: code.toList := by
    rw [String.toList_append]
    rfl
  simp only [parse_eq_ok, parseChain_eq_ok, hcode, ofText_piped]
  constructor
  · rintro ⟨_, ⟨found, hfound, rfl⟩, he⟩
    rw [ofLexemes_piped] at he
    obtain ⟨calls, hcalls, rfl⟩ := Computation.map_eq_ok.mp he
    exact ⟨calls, ⟨found, hfound, hcalls⟩, rfl⟩
  · rintro ⟨calls, ⟨found, hfound, hcalls⟩, rfl⟩
    refine ⟨_, ⟨found, hfound, rfl⟩, ?_⟩
    rw [ofLexemes_piped, hcalls]
    rfl

end Expression

/-! ### The tag -/

namespace TagHead

/-- The opening of a filter tag with a chain. -/
def filtering (code : String) : TagHead := ⟨"filter", String.ofList (Text.trim code.toList)⟩

variable {code : String} {calls : List FilterCall}

/-- A chain is still there when it is trimmed, and it is not empty. -/
private theorem parseChain_raw (h : Expression.parseChain code = .ok calls) :
    Expression.parseChain (filtering code).raw = .ok calls := by
  obtain ⟨found, hfound, hcalls⟩ := Expression.parseChain_eq_ok.mp h
  refine Expression.parseChain_eq_ok.mpr ⟨found, ?_, hcalls⟩
  rw [filtering, String.toList_ofList]
  exact Lexeme.ofText_trim hfound

private theorem raw_ne (h : Expression.parseChain code = .ok calls) :
    (filtering code).raw ≠ "" := by
  intro hempty
  have hchain := parseChain_raw h
  have hfails : (Expression.parseChain "").isOk = false := by decide +kernel
  rw [hempty] at hchain
  rw [hchain] at hfails
  cases hfails

private theorem isPrintable_filtering (h : Expression.parseChain code = .ok calls) :
    (filtering code).IsPrintable := by
  have hword : TagHead.IsPrintable ⟨"filter", ""⟩ := by decide
  obtain ⟨found, hfound, -⟩ := Expression.parseChain_eq_ok.mp (parseChain_raw h)
  have hname : (filtering code).name = "filter" := rfl
  constructor
  case name_ne =>
    rw [hname]
    exact hword.name_ne
  case isBlank_name =>
    rw [hname]
    exact hword.isBlank_name
  case isPlain_name =>
    rw [hname]
    exact hword.isPlain_name
  case trim_raw => rw [filtering, String.toList_ofList, Text.trim_trim]
  case sealed_raw =>
    generalize (filtering code).raw = raw at hfound ⊢
    exact Lexeme.sealed_of_ofText hfound

private theorem spelledBy_filtering (code : String) :
    (filtering code).SpelledBy (" filter " ++ code ++ " ").toList := by
  obtain ⟨before, after, hblanks, hcode⟩ := Text.exists_append_trim_append code.toList
  refine ⟨[' '], ' ' :: before, after ++ [' '], ?_, fun h ↦ (List.cons_ne_nil _ _ h).elim, ?_⟩
  · have hspace : Text.isBlank ' ' = true := rfl
    intro c hc
    simp only [List.mem_append, List.mem_cons, List.not_mem_nil, or_false] at hc hblanks
    rcases hc with (rfl | rfl | hc) | hc | rfl
    · exact hspace
    · exact hspace
    · exact hblanks c (.inl hc)
    · exact hblanks c (.inr hc)
    · exact hspace
  · rw [filtering, String.toList_ofList]
    generalize Text.trim code.toList = chain at hcode ⊢
    rw [String.toList_append, String.toList_append, ← hcode]
    simp

end TagHead

/-! ### The two texts -/

namespace Node

/-- A filter tag around the output of `x`. -/
def filtered (code : String) : String :=
  "\x7b% filter " ++ code ++ " %\x7d" ++ Expression.shown "x" ++ "\x7b% endfilter %\x7d"

/-- A tag that begins a text starts it: the comments before a token would begin with a mark of their
own. -/
private theorem start_of_parse {kindOf : String → Option TagKind} {source : String} {head : TagHead}
    {kind : TagKind} {children nodes : List Node} {span : Span}
    (h : parse kindOf source = .ok (.tag head kind children span :: nodes))
    (hsource : Marker.tag.opener <+: source.toList) : span.start = .origin := by
  have hfirst {first : Span} {tokens : List Placed}
      (htokens : Token.ofText source.toList = .ok (⟨.tagOpen, first⟩ :: tokens)) :
      first.start = .origin := by
    have hlayout := Layout.of_ofText htokens
    generalize source.toList = cs at hsource hlayout
    cases hlayout with
    | token hgap t h =>
      obtain ⟨_ | ⟨body, bodies⟩, rfl⟩ := hgap
      · rfl
      · obtain ⟨rest, hrest⟩ := hsource
        cases hrest
  obtain ⟨tokens, htokens, hnodes⟩ := Computation.bind_eq_ok.mp h
  obtain ⟨found, hderives, hfound⟩ := completes_of_walk hnodes
  obtain rfl : _ = found := hfound
  cases hderives with
  | standalone =>
    have hstart := hfirst htokens
    exact hstart
  | block =>
    have hstart := hfirst htokens
    exact hstart

variable {r : Registry} {code : String} {calls : List FilterCall}

/-- A filter tag around the output of `x` is this tag with this output, and starts the text. -/
private theorem exists_parse_filtered (hfilter : r.tagKind? "filter" = some .block)
    (hend : r.tagKind? "endfilter" = none) (h : Expression.parseChain code = .ok calls) :
    ∃ inside stop, parse r.tagKind? (filtered code) =
      .ok [.tag (.filtering code) .block [.output ⟨.named "x", []⟩ inside] ⟨.origin, stop⟩] := by
  have hsource : (filtered code).toList =
      Marker.tag.around (" filter " ++ code ++ " ").toList ++
        (Marker.output.around " x ".toList ++ []) ++
          Marker.tag.around " endfilter ".toList ++ [] := by
    unfold filtered
    simp [Expression.shown, Marker.around, Marker.opener, Marker.closer]
  have hprefix : Marker.tag.opener <+: (filtered code).toList := by
    rw [hsource, Marker.around]
    simp only [List.append_assoc]
    exact List.prefix_append _ _
  have hshown : Expression.parse " x " = .ok ⟨.named "x", []⟩ := by cbv
  have hending : (TagHead.filtering code).ending = ⟨"endfilter", ""⟩ := rfl
  have hspelled : (TagHead.filtering code).ending.SpelledBy " endfilter ".toList := by
    rw [hending]
    exact ⟨[' '], [], [' '], List.all_eq_true.mp (by decide), fun _ ↦ rfl, by decide⟩
  have hfree : r.tagKind? (TagHead.filtering code).ending.name = none := by
    rw [hending]
    exact hend
  have hprinted : Printed r.tagKind? [.tag (.filtering code) .block
      [.output ⟨.named "x", []⟩ ⟨.origin, .origin⟩] ⟨.origin, .origin⟩] (filtered code).toList := by
    rw [hsource]
    exact .block _ (TagHead.isPrintable_filtering h) (TagHead.spelledBy_filtering code) hspelled
      hfilter hfree (.output _ hshown .nil) .nil
  obtain ⟨found, hfound, hsame⟩ := parse_of_printed r hprinted
  rw [unplacedAll, unplacedAll, unplaced, unplacedAll, unplacedAll, unplaced] at hsame
  obtain ⟨tag, others, rfl, htag, hothers⟩ := exists_of_unplacedAll_eq_cons hsame
  obtain rfl := unplacedAll_eq_nil hothers
  obtain ⟨children, ⟨start, stop⟩, rfl, hchildren⟩ := exists_of_unplaced_eq_tag htag
  obtain ⟨output, others, rfl, houtput, hothers⟩ := exists_of_unplacedAll_eq_cons hchildren
  obtain rfl := unplacedAll_eq_nil hothers
  obtain ⟨inside, rfl⟩ := exists_of_unplaced_eq_output houtput
  obtain rfl : start = .origin := start_of_parse hfound hprefix
  exact ⟨inside, stop, hfound⟩

/-- The instruction of the tag with a body: the fragment of its chain, if this can be bound. -/
private theorem instruction_filtering (h : Expression.parseChain code = .ok calls) (body : Body)
    (stop : Point) :
    RawTag.filter.instruction r (.filtering code) ⟨.origin, stop⟩ (some body) =
      (FilterChain.bind r.filter? Point.origin.place calls).map fun chain ↦ .fragment ⟨do
        let text ← Body.capture body
        let value ← ofExcept (FilterChain.apply (← get).scope chain (.string text))
        Render.write value.display⟩ := by
  unfold RawTag.instruction RawTag.filter
  dsimp only [RawTagInput.filterChain, RawTagInput.place]
  rw [if_neg (TagHead.raw_ne h), FilterChain.ofText, TagHead.parseChain_raw h]
  dsimp only
  cases FilterChain.bind r.filter? Point.origin.place calls <;> rfl

/-- What the tag around the output is compiled to. -/
private theorem compileAll_filtered (hfilter : r.tag? "filter" = some (.raw RawTag.filter))
    (h : Expression.parseChain code = .ok calls) (inside : Span) (stop : Point)
    (load : String → Except Error Template) :
    compileAll r load
        [.tag (.filtering code) .block [.output ⟨.named "x", []⟩ inside] ⟨.origin, stop⟩] =
      (FilterChain.bind r.filter? Point.origin.place calls).map fun chain ↦ [.fragment ⟨do
        let text ← Body.capture [.output ⟨.named "x", []⟩]
        let value ← ofExcept (FilterChain.apply (← get).scope chain (.string text))
        Render.write value.display⟩] := by
  have htag : r.tag? (TagHead.filtering code).name = some (.raw RawTag.filter) := hfilter
  have hshown : compileAll r load [.output ⟨.named "x", []⟩ inside] =
      pure [.output ⟨.named "x", []⟩] := compileAll_output rfl load
  have hinstruction := @instruction_filtering r code calls h [.output ⟨.named "x", []⟩] stop
  rw [compileAll, compile, htag]
  dsimp only
  rw [hshown, bodyOf, map_pure, pure_bind, hinstruction]
  cases FilterChain.bind r.filter? Point.origin.place calls <;> rfl

/-- What an output of `x` through a chain is compiled to. -/
private theorem compileAll_piped (stop : Point) (load : String → Except Error Template) :
    compileAll r load [.output ⟨.named "x", calls⟩ ⟨.origin, stop⟩] =
      (FilterChain.bind r.filter? Point.origin.place calls).map fun chain ↦
        [.output ⟨.named "x", chain⟩] := by
  rw [compileAll, compile, BoundExpression.bind]
  cases FilterChain.bind r.filter? Point.origin.place calls <;> rfl

end Node

/-! ### What is rendered -/

/-- Around the output of `x` the fragment of a chain writes what the chain makes of the text that
`x` stands for. -/
private theorem Body.write_filtered {chain : FilterChain} {text : String} {s : RenderState}
    (hx : Fields.find? "x" s.scope = some (.string text)) (hescape : s.autoescape = false) :
    Body.write [.fragment ⟨do
        let text ← Body.capture [.output ⟨.named "x", []⟩]
        let value ← ofExcept (FilterChain.apply (← get).scope chain (.string text))
        Render.write value.display⟩] s =
      Body.write [.output ⟨.named "x", chain⟩] s := by
  obtain ⟨scope, outer, flag, calls⟩ := s
  obtain rfl : flag = false := hescape
  have hvalue (chain : FilterChain) : BoundExpression.evaluate scope ⟨.named "x", chain⟩ =
      FilterChain.apply scope chain (.string text) := by
    rw [BoundExpression.evaluate, Expr.evaluate, hx]
    rfl
  have hwrite {chain : FilterChain} {value : Value} (output : String)
      (happly : FilterChain.apply scope chain (.string text) = .ok value) :
      Render.writeExpression ⟨.named "x", chain⟩ ⟨scope, output, false, calls⟩ =
        (.ok (), ⟨scope, output ++ value.display, false, calls⟩) :=
    Render.writeExpression_apply ((hvalue chain).trans happly)
  have hcapture : Body.capture [.output ⟨.named "x", []⟩] ⟨scope, outer, false, calls⟩ =
      (.ok text, ⟨scope, outer, false, calls⟩) := by
    have hinner := @hwrite [] (.string text) "" rfl
    rw [Body.capture, Render.captured_apply, Instruction.runAll, Instruction.run,
      Instruction.runAll, Computation.bind_apply, hinner]
    simp [Value.display, Except.map]
  rw [Body.write, Body.write, Instruction.runAll, Instruction.runAll, Instruction.runAll,
    Instruction.run, Instruction.run, Computation.bind_apply, Computation.bind_apply]
  cases happly : FilterChain.apply scope chain (.string text) with
  | error e => simp [Render.writeExpression, Render.evaluate, hcapture, hvalue, happly]
  | ok value => simp [hcapture, hwrite outer happly, happly, Render.write, Instruction.runAll]

/-- Templates of one registry whose bodies write alike render alike. -/
private theorem Template.render_eq_of_write {t u : Template} {scope : Scope} {calls : CallLog}
    (hregistry : t.registry = u.registry)
    (hwrite : Body.write t.body (t.initialState scope calls) =
      Body.write u.body (t.initialState scope calls)) :
    t.render scope calls = u.render scope calls :=
  render_eq_of_answerOf hregistry (congrArg answerOf hwrite)

namespace Session

/-- A filter tag does what a filter chain does. What may follow a bar in an expression is what
parses as a chain. At any point of a session whose registry has the built-in filter tag, no simple
tag of this name and no tag with the name of its end, and escapes nothing, the tag around the output
of `x` compiles exactly when `x` piped through the chain does. Then both render the same in every
scope where `x` is a text. -/
theorem render_filtered (serial : Nat) (workingDirectory : Path) (o : Options) (fs : FileSystem)
    (commands : List Command) (code : String) :
    (∀ calls, Expression.parseChain code = .ok calls ↔
      Expression.parse ("x|" ++ code) = .ok ⟨.named "x", calls⟩) ∧
    let s := (start serial workingDirectory o fs).after commands
    let r := s.engine.registry
    let filtered := (s.engine.compile s.files (Node.filtered code)).1
    let piped := (s.engine.compile s.files (Expression.shown ("x|" ++ code))).1
    (Expression.parseChain code).isOk = true →
    Fields.find? "filter" r.rawTags = some RawTag.filter →
    Fields.find? "filter" r.simpleTags = none → r.tag? "endfilter" = none → r.autoescape = false →
    filtered.isOk = piped.isOk ∧
    ∀ t u, filtered = .ok t → piped = .ok u →
      ∀ scope text log, Fields.find? "x" scope = some (.string text) →
        t.render scope log = u.render scope log := by
  refine ⟨fun calls ↦ ?_, ?_⟩
  · rw [Expression.parse_piped]
    simp
  intro s r filtered piped hok hraw hsimple hend hescape
  obtain ⟨calls, hcalls⟩ := Computation.exists_eq_ok_of_isOk hok
  have htag : r.tag? "filter" = some (.raw RawTag.filter) := by
    rw [Registry.tag?, hsimple, hraw]
  have hkind : r.tagKind? "filter" = some .block := by
    rw [Registry.tagKind?, htag]
    rfl
  have hfree : r.tagKind? "endfilter" = none := by
    rw [Registry.tagKind?, hend]
    rfl
  obtain ⟨inside, stop, hfiltered⟩ := Node.exists_parse_filtered hkind hfree hcalls
  obtain ⟨stop', hpiped⟩ :=
    Node.parse_shown r (Expression.parse_piped.mpr ⟨calls, hcalls, rfl⟩)
  have hloads : Node.loadsOf r [.tag (.filtering code) .block [.output ⟨.named "x", []⟩ inside]
      ⟨.origin, stop⟩] = [] := by
    have htag : r.tag? (TagHead.filtering code).name = some (.raw RawTag.filter) := htag
    simp [Node.loadsOf, Node.loads, htag]
  have hleft := settles_of_loadsOf_eq_nil rfl hfiltered hloads fun _ ↦ .error .filesUnavailable
  have hright := settles_of_loadsOf_eq_nil rfl hpiped rfl fun _ ↦ .error .filesUnavailable
  rw [Node.compileAll_filtered htag hcalls] at hleft
  rw [Node.compileAll_piped] at hright
  change r.Settles _ filtered at hleft
  change r.Settles _ piped at hright
  generalize filtered = filtered at hleft ⊢
  generalize piped = piped at hright ⊢
  -- The tag and the output are at one place, so that a filter that is missing is one error.
  cases hbind : FilterChain.bind r.filter? Point.origin.place calls with
  | error e =>
    rw [hbind] at hleft hright
    obtain ⟨t, rfl, htregistry, htbody⟩ := hleft
    obtain ⟨u, rfl, huregistry, hubody⟩ := hright
    cases r.policy.isStrict || e.kind == .filesUnavailable with
    | true =>
      refine ⟨rfl, ?_⟩
      rintro _ _ ⟨⟩
    | false =>
      refine ⟨rfl, ?_⟩
      rintro _ _ ⟨⟩ ⟨⟩ scope text log -
      exact Template.render_eq_of_write (htregistry.trans huregistry.symm) (by rw [htbody, hubody])
  | ok chain =>
    rw [hbind] at hleft hright
    obtain ⟨t, rfl, htregistry, htbody⟩ := hleft
    obtain ⟨u, rfl, huregistry, hubody⟩ := hright
    refine ⟨rfl, ?_⟩
    rintro _ _ ⟨⟩ ⟨⟩ scope text log hx
    refine Template.render_eq_of_write (htregistry.trans huregistry.symm) ?_
    rw [htbody, hubody]
    exact Body.write_filtered hx (by rw [Template.initialState, htregistry, hescape])

/-- A chain with a mark in a literal, a name in its arguments and blanks around it. -/
theorem render_filtered_replace :
    let code := " replace(\"%\x7d\", y)|upper "
    let s := (start 0 ⟨"/"⟩ { Options.default with autoescape := false } ⟨[], []⟩).after []
    Expression.parse ("x|" ++ code) = .ok ⟨.named "x",
      [⟨"replace", [.literal (.string "%\x7d"), .named "y"]⟩, ⟨"upper", []⟩]⟩ ∧
    ∃ t u, (s.engine.compile s.files (Node.filtered code)).1 = .ok t ∧
      (s.engine.compile s.files (Expression.shown ("x|" ++ code))).1 = .ok u ∧
      ∀ scope text log, Fields.find? "x" scope = some (.string text) →
        t.render scope log = u.render scope log := by
  intro code s
  have hcalls : Expression.parseChain code = .ok
      [⟨"replace", [.literal (.string "%\x7d"), .named "y"]⟩, ⟨"upper", []⟩] := by cbv
  obtain ⟨hparse, hrender⟩ :=
    render_filtered 0 ⟨"/"⟩ { Options.default with autoescape := false } ⟨[], []⟩ [] code
  obtain ⟨hok, hsame⟩ := hrender (by rw [hcalls]; rfl) rfl rfl rfl rfl
  have hpiped : (s.engine.compile s.files (Expression.shown ("x|" ++ code))).1.isOk = true := by
    decide +kernel
  obtain ⟨u, hu⟩ := Computation.exists_eq_ok_of_isOk hpiped
  obtain ⟨t, ht⟩ := Computation.exists_eq_ok_of_isOk (hok.trans hpiped)
  exact ⟨(hparse _).mp hcalls, t, u, ht, hu, hsame t u ht hu⟩

/-- A simple tag with the name of the end takes its place: the filter tag is then never closed, and
the chain is not disturbed. -/
theorem exists_filtered_isOk_ne :
    let o : Options := { Options.default with policy := .strict, autoescape := false }
    let s := (start 0 ⟨"/"⟩ (o.withSimpleTag "endfilter" ⟨.standalone, fun _ ↦ some "t"⟩)
      ⟨[], []⟩).after []
    let r := s.engine.registry
    (Expression.parseChain "upper").isOk = true ∧ r.HasBuiltinTags ∧
    Fields.find? "filter" r.simpleTags = none ∧ r.autoescape = false ∧
    (s.engine.compile s.files (Node.filtered "upper")).1.isOk = false ∧
    (s.engine.compile s.files (Expression.shown ("x|" ++ "upper"))).1.isOk = true := by
  intro o s r
  exact ⟨by decide +kernel, rfl, rfl, rfl, by decide +kernel, by decide +kernel⟩

end Session

end Stencil
