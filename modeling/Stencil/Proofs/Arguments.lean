import Stencil.Proofs.Derivations
import Stencil.Proofs.LoadFree
import Stencil.Proofs.Printing
import Stencil.Proofs.SingleMarker
import Stencil.Proofs.Splitting

/-!
# The arguments of simple tags

The text after the name of a tag is split at the blanks outside of literals and brackets. The split
counts brackets of both kinds together and reads quotes on its own; on expressions it agrees with the
lexemes: brackets are closed where they should be, so that an expression whose blanks are all within
literals or brackets is one item.
-/

namespace Stencil

/-! ### Brackets -/

namespace Lexeme

/-- How many brackets are open after one more lexeme. -/
def bracketStep (depth : Nat) : Lexeme → Nat
  | .parenOpen | .bracketOpen => depth + 1
  | .parenClose | .bracketClose => depth - 1
  | _ => depth

/-- How many brackets are open after some lexemes. -/
def bracketRun (depth : Nat) (lexemes : List Lexeme) : Nat := lexemes.foldl bracketStep depth

/-- The brackets in the body of a literal do not count. -/
private theorem bracketRun_of_takeBody {delimiter : Char} {cs body after : List Char}
    (h : takeBody delimiter cs = .ok (body, after)) (depth : Nat) :
    Text.bracketRun (.inside delimiter false) depth (body ++ [delimiter]) = depth := by
  fun_induction takeBody delimiter cs generalizing body after with
  | case1 => cases h
  | case2 => cases h
  | case3 => cases h
  | case4 c rest hc body after hbody ih =>
    cases h
    change Text.bracketRun (.inside delimiter false) depth (body ++ [delimiter]) = depth
    exact ih hbody
  | case5 => cases h
  | case6 rest =>
    cases h
    rfl
  | case7 c rest hlast hescape hends body after hbody ih =>
    cases h
    have hplain : c ≠ '\\' := by
      rintro rfl
      cases rest with
      | nil => exact hlast rfl rfl
      | cons d rest => exact hescape d rest rfl rfl
    rw [List.cons_append, Text.bracketRun, Text.Quoting.step, if_neg hplain, if_neg hends]
    exact ih hbody
  | case8 => cases h

private theorem bracketStep_sign {c : Char} {lexeme : Lexeme} (h : sign? c = some lexeme)
    (depth : Nat) : Text.bracketStep .bare depth c = lexeme.bracketStep depth := by
  unfold sign? at h
  split at h <;> cases h <;> rfl

/-- A lexeme that is taken opens and closes the brackets that its text does. -/
private theorem bracketRun_of_take {c : Char} {rest after : List Char} {lexeme : Lexeme}
    (h : take c rest = .ok (lexeme, after)) (depth : Nat) :
    Text.bracketRun .bare depth (c :: rest) =
      Text.bracketRun .bare (lexeme.bracketStep depth) after := by
  rcases cases_of_take h with ⟨part, hpart, hplain, hlexeme⟩ | ⟨body, hquote, hbody, rfl⟩ |
    ⟨hsign, rfl⟩
  · have hbare : Text.Quoting.bare.run part = .bare :=
      (Text.sealed_of_isPlain fun d hd ↦ (hplain d hd).1).run_eq
    rw [hpart, Text.bracketRun_append, hbare, Text.bracketRun_of_isPlain hplain]
    rcases hlexeme with ⟨s, rfl⟩ | ⟨literal, rfl⟩ <;> rfl
  · obtain ⟨hrest, hsealed⟩ := eq_of_takeBody (ne_escape_of_quote hquote) hbody
    have hopen : Text.bracketStep .bare depth c = depth :=
      Text.bracketStep_of_notMem (by rcases hquote with rfl | rfl <;> decide) _ _
    have hbody' : rest = (body ++ [c]) ++ after := by simp [hrest]
    rw [Text.bracketRun, hopen, Text.Quoting.step, if_pos hquote, hbody', Text.bracketRun_append,
      hsealed.run_eq, bracketRun_of_takeBody hbody]
    rfl
  · have hplain : Text.IsPlain c :=
      Text.isPlain_of (p := fun c ↦ (sign? c).isSome) (by decide) (by rw [hsign]; rfl)
    rw [Text.bracketRun, bracketStep_sign hsign, hplain.step_bare]

/-- A text opens and closes the brackets that its lexemes do. -/
theorem bracketRun_of_ofText {cs : List Char} {lexemes : List Lexeme}
    (h : ofText cs = .ok lexemes) (depth : Nat) :
    Text.bracketRun .bare depth cs = bracketRun depth lexemes := by
  fun_induction ofText cs generalizing lexemes depth with
  | case1 =>
    cases h
    rfl
  | case2 c rest hspace ih =>
    have hplain : Text.IsPlain c := Text.isPlain_of (by decide) hspace
    have hbrackets : Text.brackets.any isSpace = false := by decide
    rw [Text.bracketRun, hplain.step_bare, Text.bracketStep_of_notMem
      fun hmem ↦ List.any_eq_false.mp hbrackets c hmem hspace]
    exact ih h depth
  | case3 c rest hspace lexeme after htake ih =>
    obtain ⟨more, hmore, rfl⟩ := Computation.map_eq_ok.mp h
    rw [bracketRun_of_take htake, ih hmore, bracketRun, bracketRun, List.foldl_cons]
  | case4 => cases h

theorem bracketRun_append (depth : Nat) (a b : List Lexeme) :
    bracketRun depth (a ++ b) = bracketRun (bracketRun depth a) b :=
  List.foldl_append

end Lexeme

/-! ### Expressions close their brackets -/

mutual

/-- A value closes the brackets that it opens. -/
theorem ValueTree.bracketRun_lexemes (depth : Nat) :
    (t : ValueTree) → Lexeme.bracketRun depth t.lexemes = depth
  | .quoted .. => rfl
  | .number .. => rfl
  | .keyword _ => rfl
  | .path _ _ steps => steps.bracketRun_lexemes depth

/-- Attributes and keys close the brackets that they open. -/
theorem StepsTree.bracketRun_lexemes (depth : Nat) :
    (t : StepsTree) → Lexeme.bracketRun depth t.lexemes = depth
  | .nil => rfl
  | .member _ rest => rest.bracketRun_lexemes depth
  | .index key rest => by
    have hkey := key.bracketRun_lexemes (depth + 1)
    have hrest := rest.bracketRun_lexemes depth
    change Lexeme.bracketRun (depth + 1) (key.lexemes ++ .bracketClose :: rest.lexemes) = depth
    rw [Lexeme.bracketRun_append, hkey]
    exact hrest

end

namespace CallTree

theorem bracketRun_separated (depth : Nat) (arguments : List ValueTree) :
    Lexeme.bracketRun depth (separated arguments) = depth := by
  induction arguments with
  | nil => rfl
  | cons t ts ih =>
    by_cases h : ts = []
    · rw [h, separated_singleton, t.bracketRun_lexemes]
    · rw [separated_cons h, Lexeme.bracketRun_append, t.bracketRun_lexemes]
      exact ih

theorem bracketRun_lexemes (depth : Nat) (c : CallTree) :
    Lexeme.bracketRun depth c.lexemes = depth := by
  obtain ⟨name, _ | arguments⟩ := c
  · rfl
  · change Lexeme.bracketRun (depth + 1) (separated arguments ++ [.parenClose]) = depth
    rw [Lexeme.bracketRun_append, bracketRun_separated]
    rfl

theorem bracketRun_barred (depth : Nat) (calls : List CallTree) :
    Lexeme.bracketRun depth (barred calls) = depth := by
  induction calls with
  | nil => rfl
  | cons c rest ih =>
    change Lexeme.bracketRun depth (c.lexemes ++ barred rest) = depth
    rw [Lexeme.bracketRun_append, c.bracketRun_lexemes, ih]

end CallTree

/-- The code of an expression closes the brackets that it opens. -/
theorem Expression.bracketRun_of_parse {code : String} {e : Expression} (h : parse code = .ok e)
    (depth : Nat) : Text.bracketRun .bare depth code.toList = depth := by
  obtain ⟨ls, hls, he⟩ := Computation.bind_eq_ok.mp h
  obtain ⟨⟨base, calls⟩, rfl, -⟩ := ofLexemes_eq_ok.mp he
  unfold lexemes at hls
  cases hlexemes : Lexeme.ofText code.toList with
  | error seen =>
    rw [hlexemes] at hls
    cases hls
  | ok found =>
    rw [hlexemes] at hls
    cases hls
    rw [Lexeme.bracketRun_of_ofText hlexemes, ExpressionTree.lexemes, Lexeme.bracketRun_append,
      base.bracketRun_lexemes, CallTree.bracketRun_barred]

/-! ### Arguments as they are written -/

/-- An argument in the opening of a tag: blanks, and the code of an expression whose own blanks all
stand in literals or brackets. -/
structure TagArgument where
  gap : List Char
  code : String
  expression : Expression
  gap_ne : gap ≠ []
  isBlank_gap : ∀ c ∈ gap, Text.isBlank c = true
  parse_code : Expression.parse code = .ok expression
  solid_code : Text.Solid .bare 0 code.toList

namespace TagArgument

/-- An argument with the blanks before it. -/
def written (a : TagArgument) : List Char := a.gap ++ a.code.toList

/-- Some arguments without the blanks before the first one. -/
def joined : List TagArgument → List Char
  | [] => []
  | a :: rest => a.code.toList ++ rest.flatMap written

variable (a : TagArgument) (rest : List TagArgument)

theorem code_ne : a.code.toList ≠ [] := Expression.toList_ne_of_parse a.parse_code

theorem run_code : Text.Quoting.bare.run a.code.toList = .bare :=
  (Expression.sealed_of_parse a.parse_code).run_eq

theorem bracketRun_code : Text.bracketRun .bare 0 a.code.toList = 0 :=
  Expression.bracketRun_of_parse a.parse_code 0

/-- The code of an argument does not begin with a blank. -/
theorem isBlank_head : ∀ c ∈ a.code.toList.head?, Text.isBlank c = false := by
  intro c hc
  have hsolid := a.solid_code
  obtain ⟨more, hcode⟩ := List.head?_eq_some_iff.mp hc
  rw [hcode] at hsolid
  by_contra hblank
  rcases hsolid.1 (Bool.of_not_eq_false hblank) with hquoting | hdepth
  · exact hquoting rfl
  · exact Nat.lt_irrefl 0 hdepth

/-- The code of an argument does not end with a blank. -/
theorem isBlank_getLast : ∀ c ∈ a.code.toList.getLast?, Text.isBlank c = false := by
  intro c hc
  obtain ⟨init, hcode⟩ := List.getLast?_eq_some_iff.mp hc
  have hrun := a.run_code
  have hdepth := a.bracketRun_code
  have hsolid := a.solid_code
  rw [hcode, Text.Quoting.run_append] at hrun
  rw [hcode, Text.bracketRun_append] at hdepth
  rw [hcode, Text.solid_append] at hsolid
  by_contra h
  have hblank : Text.isBlank c = true := Bool.of_not_eq_false h
  -- The blank would end a literal or close a bracket, which no blank does.
  rcases hsolid.2.1 hblank with hquoting | hopen
  · have hquote : ¬(c = '"' ∨ c = '\'') := by
      rintro (rfl | rfl) <;> cases hblank
    exact hquoting (Text.Sealed.eq_bare_of_step (Text.Sealed.delimited_run init) hquote hrun)
  · rw [Text.bracketRun, Text.bracketStep_of_notMem (Text.notMem_brackets_of_isBlank hblank)]
      at hdepth
    exact Nat.ne_of_gt hopen hdepth

/-- Arguments do not end with a blank. -/
private theorem isBlank_getLast_append :
    ∀ c ∈ (a.code.toList ++ rest.flatMap written).getLast?, Text.isBlank c = false := by
  induction rest generalizing a with
  | nil =>
    rw [List.flatMap_nil, List.append_nil]
    exact a.isBlank_getLast
  | cons b rest ih =>
    have hne : b.code.toList ++ rest.flatMap written ≠ [] :=
      List.append_ne_nil_of_left_ne_nil b.code_ne _
    rw [List.flatMap_cons, written, List.append_assoc, ← List.append_assoc,
      List.getLast?_append_of_ne_nil _ hne]
    exact ih b

/-- A name and arguments after it are the opening of a tag. -/
theorem spelledBy (name : String) {before after : List Char} (arguments : List TagArgument)
    (hbefore : ∀ c ∈ before, Text.isBlank c = true) (hafter : ∀ c ∈ after, Text.isBlank c = true) :
    TagHead.SpelledBy ⟨name, String.ofList (joined arguments)⟩
      (before ++ name.toList ++ arguments.flatMap written ++ after) := by
  cases arguments with
  | nil =>
    refine ⟨before, [], after, ?_, fun _ ↦ rfl, by simp [joined]⟩
    simpa only [List.append_nil, List.mem_append, or_imp, forall_and] using ⟨hbefore, hafter⟩
  | cons a rest =>
    refine ⟨before, a.gap, after, ?_, fun h ↦ absurd h a.gap_ne, by simp [joined, written]⟩
    simpa only [List.mem_append, or_imp, forall_and] using ⟨⟨hbefore, a.isBlank_gap⟩, hafter⟩

theorem trim_joined (arguments : List TagArgument) :
    Text.trim (joined arguments) = joined arguments := by
  cases arguments with
  | nil => rfl
  | cons a rest =>
    have hstart : ∀ c ∈ (joined (a :: rest)).head?, Text.isBlank c = false := by
      rw [joined, List.head?_append_of_ne_nil _ a.code_ne]
      exact a.isBlank_head
    have hend : ∀ c ∈ (joined (a :: rest)).getLast?, Text.isBlank c = false :=
      isBlank_getLast_append a rest
    rw [Text.trim, Text.trimStart_eq_self hstart, Text.trimEnd_eq_self hend]

theorem sealed_joined (arguments : List TagArgument) : Text.Sealed .bare (joined arguments) := by
  have hcode (a : TagArgument) := Expression.sealed_of_parse a.parse_code
  have hwritten (rest : List TagArgument) : Text.Sealed .bare (rest.flatMap written) := by
    induction rest with
    | nil => rfl
    | cons b rest ih =>
      have hgap : Text.Sealed .bare b.gap :=
        Text.sealed_of_isPlain fun c hc ↦ Text.isPlain_of_isBlank (b.isBlank_gap c hc)
      exact (hgap.append (hcode b)).append ih
  cases arguments with
  | nil => rfl
  | cons a rest => exact (hcode a).append (hwritten rest)

/-- A word without quotes and characters of marks and arguments after it can be read again. -/
theorem isPrintable_head {name : String} (arguments : List TagArgument) (hname : name ≠ "")
    (hchars : ∀ c ∈ name.toList, Text.isBlank c = false ∧ Text.IsPlain c) :
    TagHead.IsPrintable ⟨name, String.ofList (joined arguments)⟩ where
  name_ne := hname
  isBlank_name c hc := (hchars c hc).1
  isPlain_name c hc := (hchars c hc).2
  trim_raw := by rw [String.toList_ofList, trim_joined]
  sealed_raw := by
    rw [String.toList_ofList]
    exact sealed_joined arguments

/-- Joined arguments are split into the arguments. -/
theorem splitArguments_joined (arguments : List TagArgument) :
    splitArguments (String.ofList (joined arguments)) = arguments.map code := by
  have hitems : splitArgumentsFrom [] .bare 0 (joined arguments) =
      arguments.map (·.code.toList) := by
    cases arguments with
    | nil => rfl
    | cons a rest =>
      induction rest generalizing a with
      | nil =>
        rw [joined, splitArgumentsFrom_append a.solid_code, List.flatMap_nil, splitArgumentsFrom,
          List.append_nil, if_neg (List.reverse_ne_nil_iff.mpr a.code_ne), List.reverse_reverse]
        rfl
      | cons b rest ih =>
        have hitem : a.code.toList.reverse ++ [] ≠ [] := by
          rw [List.append_nil]
          exact List.reverse_ne_nil_iff.mpr a.code_ne
        rw [joined, splitArgumentsFrom_append a.solid_code, List.flatMap_cons, written,
          List.append_assoc, a.run_code, a.bracketRun_code,
          splitArgumentsFrom_gap hitem b.gap_ne b.isBlank_gap, List.append_nil,
          List.reverse_reverse]
        exact congrArg _ (ih b)
  rw [splitArguments, String.toList_ofList, hitems, List.map_map]
  exact List.map_congr_left fun a _ ↦ String.ofList_toList

end TagArgument

/-! ### Compiling the call -/

/-- Calls of registered filters can be bound. -/
theorem FilterChain.exists_bind {find : FindFilter} (place : Place) {calls : List FilterCall}
    (h : ∀ c ∈ calls, (find c.name).isSome = true) :
    ∃ chain, FilterChain.bind find place calls = .ok chain := by
  induction calls with
  | nil => exact ⟨[], rfl⟩
  | cons c rest ih =>
    obtain ⟨filter, hfilter⟩ := Option.isSome_iff_exists.mp (h c List.mem_cons_self)
    obtain ⟨chain, hchain⟩ := ih fun d hd ↦ h d (List.mem_cons_of_mem _ hd)
    refine ⟨⟨c.name, filter, c.arguments⟩ :: chain, ?_⟩
    rw [bind, hfilter, hchain]
    rfl

/-- The arguments of a tag can be bound one by one if their filters are registered. -/
theorem TagArgument.exists_ofTexts {find : FindFilter} (place : Place)
    {arguments : List TagArgument}
    (h : ∀ a ∈ arguments, ∀ c ∈ a.expression.filters, (find c.name).isSome = true) :
    ∃ bound, BoundExpression.ofTexts find place (arguments.map code) = .ok bound ∧
      List.Forall₂ (fun a b ↦ BoundExpression.bind find place a.expression = .ok b) arguments
        bound := by
  induction arguments with
  | nil => exact ⟨[], rfl, .nil⟩
  | cons a rest ih =>
    obtain ⟨chain, hchain⟩ := FilterChain.exists_bind place (h a List.mem_cons_self)
    obtain ⟨bound, hbound, hall⟩ := ih fun b hb ↦ h b (List.mem_cons_of_mem _ hb)
    have hbind : BoundExpression.bind find place a.expression = .ok ⟨a.expression.base, chain⟩ := by
      rw [BoundExpression.bind, hchain]
      rfl
    refine ⟨⟨a.expression.base, chain⟩ :: bound, ?_, .cons hbind hall⟩
    rw [List.map_cons, BoundExpression.ofTexts, BoundExpression.ofText, a.parse_code]
    dsimp only
    rw [hbind, hbound]
    rfl

/-- What a node of a simple tag that stands alone is compiled to. Nothing is loaded for it. -/
theorem Node.compileAll_simple {m : Type → Type} [Monad m] [LawfulMonad m] [MonadExcept Error m]
    {r : Registry} {head : TagHead} {span : Span} {tag : SimpleTag} {bound : List BoundExpression}
    (htag : r.tag? head.name = some (.simple tag))
    (hbound : BoundExpression.ofTexts r.filter? span.start.place head.arguments = .ok bound)
    (load : String → m Template) :
    Node.compileAll r load [.tag head .standalone [] span] = pure [.simple tag bound none] := by
  have harguments : (ofExcept (Except.ok bound : Except Error (List BoundExpression)) : m _) =
      pure bound := rfl
  simp only [Node.compileAll, Node.compile, htag, hbound, harguments, Node.bodyOf, pure_bind]

theorem Node.loadsOf_simple {r : Registry} {head : TagHead} {kind : TagKind} {span : Span}
    {tag : SimpleTag} (htag : r.tag? head.name = some (.simple tag)) :
    Node.loadsOf r [.tag head kind [] span] = [] := by
  cases kind <;> simp [Node.loadsOf, Node.loads, htag]

/-- What an output is compiled to. Nothing is loaded for it. -/
theorem Node.compileAll_output {m : Type → Type} [Monad m] [LawfulMonad m] [MonadExcept Error m]
    {r : Registry} {e : Expression} {span : Span} {b : BoundExpression}
    (hb : BoundExpression.bind r.filter? span.start.place e = .ok b)
    (load : String → m Template) : Node.compileAll r load [.output e span] = pure [.output b] := by
  have hbound : (ofExcept (Except.ok b : Except Error BoundExpression) : m _) = pure b := rfl
  simp only [Node.compileAll, Node.compile, hb, hbound, map_pure, pure_bind]

/-! ### Calling the tag -/

theorem Render.evaluateAll_apply {bound : List BoundExpression} {values : List Value}
    {s : RenderState} (h : List.Forall₂ (fun b v ↦ b.evaluate s.scope = .ok v) bound values) :
    evaluateAll bound s = (.ok values, s) := by
  induction h with
  | nil => rfl
  | cons hfirst _ ih => simp [evaluateAll, evaluate, hfirst, ih]

/-- A template that calls a simple tag renders what the tag answers to the values of its arguments. -/
theorem Template.render_simple {t : Template} {tag : SimpleTag} {bound : List BoundExpression}
    {scope : Scope} {values : List Value} (hbody : t.body = [.simple tag bound none])
    (h : List.Forall₂ (fun b v ↦ b.evaluate scope = .ok v) bound values) (calls : CallLog) :
    t.render scope calls = (.ok ((tag.call values).getD ""), calls) := by
  have hvalues : Render.evaluateAll bound (t.initialState scope calls) =
      (.ok values, t.initialState scope calls) := Render.evaluateAll_apply h
  have hwrite : Body.write t.body (t.initialState scope calls) =
      (.ok (), { t.initialState scope calls with output := (tag.call values).getD "" }) := by
    rw [hbody, Body.write]
    cases hcall : tag.call values with
    | none =>
      simp [Instruction.runAll, Instruction.run, Instruction.runOptional, hvalues, hcall]
      rfl
    | some answer =>
      simp [Instruction.runAll, Instruction.run, hvalues, hcall, Render.write]
      simp [initialState]
  rw [render, hwrite]
  rfl

namespace Session

/-- The arguments of a simple tag that stands alone arrive whole and in order. In every session the
tag marker with such arguments is compiled to one call of the tag, provided that the filters of the
arguments are registered, and where all arguments have values the tag is called with these. -/
theorem calls_standalone (serial : Nat) (workingDirectory : Path) (o : Options) (fs : FileSystem)
    (commands : List Command) {name : String} {tag : SimpleTag} {before after : List Char}
    (arguments : List TagArgument) (hname : name ≠ "")
    (hchars : ∀ c ∈ name.toList, Text.isBlank c = false ∧ Text.IsPlain c)
    (hbefore : ∀ c ∈ before, Text.isBlank c = true) (hafter : ∀ c ∈ after, Text.isBlank c = true)
    (hkind : tag.kind = .standalone) :
    let s := (start serial workingDirectory o fs).after commands
    let r := s.engine.registry
    let source := String.ofList (Marker.tag.around
      (before ++ name.toList ++ arguments.flatMap TagArgument.written ++ after))
    Fields.find? name r.simpleTags = some tag →
    (∀ a ∈ arguments, ∀ c ∈ a.expression.filters, (r.filter? c.name).isSome = true) →
    ∃ t bound, (s.engine.compile s.files source).1 = .ok t ∧ t.body = [.simple tag bound none] ∧
      List.Forall₂
        (fun a b ↦ BoundExpression.bind r.filter? Point.origin.place a.expression = .ok b)
        arguments bound ∧
      ∀ scope calls values, List.Forall₂ (fun b v ↦ b.evaluate scope = .ok v) bound values →
        t.render scope calls = (.ok ((tag.call values).getD ""), calls) := by
  intro s r source htag hfilters
  have hhead := TagArgument.isPrintable_head arguments hname hchars
  have hcode := TagArgument.spelledBy name arguments hbefore hafter
  have hlookup : r.tag? name = some (.simple tag) := by
    rw [Registry.tag?, htag]
  have hstandalone : r.tagKind? name = some .standalone := by
    rw [Registry.tagKind?, hlookup, ← hkind]
    rfl
  have hnodes := Node.parse_around_standalone r hhead hcode hstandalone
  obtain ⟨bound, hbound, hall⟩ := TagArgument.exists_ofTexts Point.origin.place hfilters
  rw [← TagArgument.splitArguments_joined] at hbound
  have hsettles := settles_of_loadsOf_eq_nil rfl hnodes (Node.loadsOf_simple hlookup)
    fun _ ↦ .error .filesUnavailable
  rw [Node.compileAll_simple hlookup hbound] at hsettles
  obtain ⟨t, hout, -, hbody⟩ := hsettles
  exact ⟨t, bound, hout, hbody, hall,
    fun scope calls values h ↦ Template.render_simple hbody h calls⟩

/-- Marks and the other quote in a literal, a blank before a key, and brackets in a literal between
brackets. -/
private def crowdedArguments : List TagArgument :=
  [{ gap := [' ']
     code := "\"%\x7d 'it\""
     expression := ⟨.literal (.string "%\x7d 'it"), []⟩
     gap_ne := by decide
     isBlank_gap := List.all_eq_true.mp (by decide)
     parse_code := by cbv
     solid_code := by decide },
   { gap := ['\n', '\u00a0']
     code := "rows[ 'k' ].name"
     expression := ⟨.member (.index (.named "rows") (.literal (.string "k"))) "name", []⟩
     gap_ne := by decide
     isBlank_gap := List.all_eq_true.mp (by decide)
     parse_code := by cbv
     solid_code := by decide },
   { gap := ['\t']
     code := "x|default( ')' )"
     expression := ⟨.named "x", [⟨"default", [.literal (.string ")")]⟩]⟩
     gap_ne := by decide
     isBlank_gap := List.all_eq_true.mp (by decide)
     parse_code := by cbv
     solid_code := by decide }]

/-- A tag that lists the values it is called with. -/
private def listing : SimpleTag :=
  ⟨.standalone, fun values ↦ some (String.intercalate ", " (values.map Value.display))⟩

/-- Arguments that are crowded with marks, quotes, brackets and blanks arrive whole. -/
theorem calls_standalone_crowded :
    let s := (start 0 ⟨"/"⟩ (Options.default.withSimpleTag "list" listing) ⟨[], []⟩).after []
    let r := s.engine.registry
    let source := String.ofList (Marker.tag.around
      ([' '] ++ "list".toList ++ crowdedArguments.flatMap TagArgument.written ++ [' ']))
    Fields.find? "list" r.simpleTags = some listing ∧
    ∃ t bound, (s.engine.compile s.files source).1 = .ok t ∧
      t.body = [.simple listing bound none] ∧
      List.Forall₂
        (fun a b ↦ BoundExpression.bind r.filter? Point.origin.place a.expression = .ok b)
        crowdedArguments bound ∧
      ∀ scope calls values, List.Forall₂ (fun b v ↦ b.evaluate scope = .ok v) bound values →
        t.render scope calls = (.ok ((listing.call values).getD ""), calls) :=
  have hblank : ∀ c ∈ [' '], Text.isBlank c = true := List.all_eq_true.mp (by decide)
  have hfilter : ((Registry.ofOptions 0 ⟨"/"⟩ (Options.default.withSimpleTag "list"
      listing)).filter? "default").isSome = true := by cbv
  have hfilters : ∀ a ∈ crowdedArguments, ∀ c ∈ a.expression.filters, ((Registry.ofOptions 0 ⟨"/"⟩
      (Options.default.withSimpleTag "list" listing)).filter? c.name).isSome = true := by
    simpa [crowdedArguments] using hfilter
  have hword : TagHead.IsPrintable ⟨"list", ""⟩ := by decide
  ⟨rfl, calls_standalone 0 ⟨"/"⟩ _ ⟨[], []⟩ [] crowdedArguments hword.name_ne
    (fun c hc ↦ ⟨hword.isBlank_name c hc, hword.isPlain_name c hc⟩) hblank hblank rfl rfl hfilters⟩

end Session

end Stencil
