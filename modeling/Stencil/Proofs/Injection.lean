import Stencil.Proofs.Meaning

/-!
# No markup through escaped output

In a template all of whose output is escaped, no data can open or close an HTML tag or an attribute
value: the characters for that in the output are those of its literal text. The flag for escaping
stays on through every node, so each output adds none of these characters and each block keeps those
of its body.
-/

namespace Stencil

/-! ### Marks -/

/-- Whether a character opens or closes an HTML tag or an attribute value. -/
def isMark (c : Char) : Bool := c == '<' || c == '>' || c == '"' || c == '\''

/-- The characters of a text that open or close HTML tags and attribute values, in order. -/
def marks (text : String) : List Char := text.toList.filter isMark

@[simp] theorem marks_empty : marks "" = [] := rfl

@[simp] theorem marks_append (a b : String) : marks (a ++ b) = marks a ++ marks b := by
  rw [marks, String.toList_append, List.filter_append, marks, marks]

private theorem filter_htmlEntity (c : Char) : (Text.htmlEntity c).filter isMark = [] := by
  unfold Text.htmlEntity
  split
  all_goals try rfl
  next _ hlt hgt hquote happ =>
    have hplain : isMark c = false := by
      simp only [isMark, Bool.or_eq_false_iff, beq_eq_false_iff_ne]
      exact ⟨⟨⟨hlt, hgt⟩, hquote⟩, happ⟩
    rw [List.filter_cons_of_neg (by simp [hplain]), List.filter_nil]

/-- An escaped text has no marks. -/
@[simp] theorem marks_escapeHtml (text : String) : marks (Text.escapeHtml text) = [] := by
  rw [marks, Text.toList_escapeHtml, List.filter_flatMap]
  simp [filter_htmlEntity]

private theorem isMark_of_isBlank {c : Char} (h : Text.isBlank c = true) : isMark c = false := by
  by_contra hmark
  rw [Bool.not_eq_false] at hmark
  simp only [isMark, Bool.or_eq_true, beq_iff_eq] at hmark
  rcases hmark with ((rfl | rfl) | rfl) | rfl <;> exact absurd h (by decide)

private theorem filter_blanks {cs : List Char} (h : ∀ c ∈ cs, Text.isBlank c = true) :
    cs.filter isMark = [] := by
  apply List.filter_eq_nil_iff.mpr
  intro c hc
  simp [isMark_of_isBlank (h c hc)]

private theorem filter_squeezeFrom (cs : List Char) (blanks : Option (List Char))
    (h : ∀ c ∈ blanks.getD [], Text.isBlank c = true) :
    (RawTag.squeezeFrom blanks cs).filter isMark = cs.filter isMark := by
  induction cs generalizing blanks with
  | nil =>
    rw [RawTag.squeezeFrom_nil, List.filter_reverse, filter_blanks h]
    rfl
  | cons c rest ih =>
    have hnext : ∀ d ∈ (if c = '>' then some ([] : List Char) else none).getD [],
        Text.isBlank d = true := by
      split <;> simp
    have hrest := ih (if c = '>' then some [] else none) hnext
    cases blanks with
    | none => rw [RawTag.squeezeFrom_none_cons, List.filter_cons, List.filter_cons, hrest]
    | some read =>
      rw [RawTag.squeezeFrom_some_cons]
      split
      · next hblank =>
        have hread : ∀ d ∈ (some (c :: read)).getD [], Text.isBlank d = true := by
          intro d hd
          rcases List.mem_cons.mp hd with rfl | hold
          · exact hblank
          · exact h d hold
        rw [ih (some (c :: read)) hread, List.filter_cons_of_neg]
        simp [isMark_of_isBlank hblank]
      · -- The blanks read so far are dropped or written, and are no marks in either case.
        have hdropped : (if c = '<' then [] else read.reverse).filter isMark = [] := by
          split
          · rfl
          · have hread : read.filter isMark = [] := filter_blanks h
            rw [List.filter_reverse, hread]
            rfl
        rw [List.filter_append, hdropped, List.nil_append, List.filter_cons, List.filter_cons,
          hrest]

/-- Removing the blanks between tags keeps the marks. -/
theorem marks_squeeze (text : String) :
    marks (String.ofList (RawTag.squeeze text.toList)) = marks text := by
  rw [marks, String.toList_ofList, RawTag.squeeze, marks]
  exact filter_squeezeFrom _ none (by simp)

/-! ### Literal text and escaped templates -/

/-- Whether a tag leaves output escaped and writes nothing of its own. -/
def TagHead.escapes (head : TagHead) : Bool :=
  head.name == "set" || head.name == Registry.inclusionName || head.name == "spaceless" ||
    head.name == "autoescape" && (head.arguments == [] || head.arguments == ["true"])

namespace Node

mutual

/-- Whether all output in a node is escaped. -/
def escapes : Node → Bool
  | .text _ => true
  | .output e _ => !Interpretation.isSafe e.filters
  | .tag head _ children _ => head.escapes && escapesAll children

/-- Whether all output in some nodes is escaped. -/
def escapesAll : List Node → Bool
  | [] => true
  | node :: rest => node.escapes && escapesAll rest

end

/-- The identifiers that some nodes include. -/
def inclusions (nodes : List Node) : List String :=
  (headsOf nodes).filterMap fun head ↦
    if head.name = Registry.inclusionName then head.literal? else none

mutual

/-- The literal text of a node, with that of an included template in its place; a binding and a tag
that stands alone have none. -/
def literalText (inclusion : String → String) : Node → String
  | .text s => s
  | .output .. => ""
  | .tag head kind children _ =>
    if head.name = Registry.inclusionName then (head.literal?.map inclusion).getD ""
    else if head.name = "set" ∨ kind = .standalone then ""
    else literalTextOf inclusion children

/-- The literal text of some nodes. -/
def literalTextOf (inclusion : String → String) : List Node → String
  | [] => ""
  | node :: rest => node.literalText inclusion ++ literalTextOf inclusion rest

end

end Node

namespace Request

section Literal

variable (r : Registry) (fs : FileSystem)

/-- The literal text of a template text. -/
def literalOfText (inclusion : String → String) (text : String) : String :=
  match Node.parse r.tagKind? text with
  | .ok nodes => Node.literalTextOf inclusion nodes
  | .error _ => ""

/-- The literal text of the file of an identifier. `depth` bounds how deep inclusions may nest. -/
def literalOfFile : Nat → String → String
  | 0, _ => ""
  | depth + 1, identifier =>
    match (fs.resolve identifier r.roots).bind fun path ↦ fs.textOf (.file path) with
    | .ok source => literalOfText r (literalOfFile depth) source
    | .error _ => ""

/-- The literal text of what is asked for, with that of all included templates. -/
def literal (depth : Nat) : Request → String
  | .text source => literalOfText r (literalOfFile r fs depth) source
  | .file identifier => literalOfFile r fs depth identifier

/-- A text is part of what is asked for: it is its text, or the text of what a part includes. -/
inductive HasPart : Request → String → Prop
  | text {source : String} : HasPart (.text source) source
  | file {identifier text : String} {path : Path} : fs.resolve identifier r.roots = .ok path →
      fs.textOf (.file path) = .ok text → HasPart (.file identifier) text
  | included {q : Request} {text part identifier : String} {nodes : List Node} : HasPart q text →
      Node.parse r.tagKind? text = .ok nodes → identifier ∈ Node.inclusions nodes →
      HasPart (.file identifier) part → HasPart q part

/-- All output in all parts of what is asked for is escaped. -/
def Escapes (q : Request) : Prop :=
  ∀ text nodes, HasPart r fs q text → Node.parse r.tagKind? text = .ok nodes →
    Node.escapesAll nodes = true

end Literal

end Request

/-! ### Interpreting keeps the marks -/

/-- With output escaped, an interpreting step gives the marks of a literal text and no others, and
output stays escaped. -/
def KeepsMarks (literal : String) (x : Interpretation String) : Prop :=
  ∀ s : Surroundings, s.autoescape = true → ∀ output after, x s = .ok (output, after) →
    marks output = marks literal ∧ after.autoescape = true

section Steps

variable {r : Registry} {place : Place} {head : TagHead} {literal other : String}
  {x y : Interpretation String}

theorem keepsMarks_pure (text : String) : KeepsMarks text (pure text) := by
  intro s hs output after h
  cases h
  exact ⟨rfl, hs⟩

theorem keepsMarks_throw (e : Error) : KeepsMarks literal (throw e) := by
  intro s hs output after h
  cases h

theorem KeepsMarks.append (hx : KeepsMarks literal x) (hy : KeepsMarks other y) :
    KeepsMarks (literal ++ other) (do return (← x) ++ (← y)) := by
  intro s hs output after h
  obtain ⟨first, middle, hfirst, h⟩ := Interpretation.bind_eq_ok.mp h
  obtain ⟨second, last, hsecond, h⟩ := Interpretation.bind_eq_ok.mp h
  cases h
  obtain ⟨hmarks, hmiddle⟩ := hx s hs first middle hfirst
  obtain ⟨hmarks', hafter⟩ := hy middle hmiddle second _ hsecond
  exact ⟨by rw [marks_append, marks_append, hmarks, hmarks'], hafter⟩

private theorem eq_of_expression {e : Expression} {s after : Surroundings} {v : Value}
    (h : Interpretation.expression r place e s = .ok (v, after)) : after = s := by
  unfold Interpretation.expression at h
  obtain ⟨_, _, ⟨⟩, h⟩ := Interpretation.bind_eq_ok.mp h
  rw [Interpretation.ofExcept_apply] at h
  obtain ⟨_, -, h⟩ := Computation.map_eq_ok.mp h
  cases h
  rfl

private theorem eq_of_expressionText {text : String} {s after : Surroundings} {v : Value}
    (h : Interpretation.expressionText r place text s = .ok (v, after)) : after = s := by
  unfold Interpretation.expressionText at h
  cases hparse : Expression.parse text with
  | error fault =>
    rw [hparse] at h
    cases h
  | ok e =>
    rw [hparse] at h
    exact eq_of_expression h

/-- An output adds no marks unless its filters mark it as safe. -/
theorem keepsMarks_output {e : Expression} (hsafe : Interpretation.isSafe e.filters = false) :
    KeepsMarks "" (Interpretation.output r place e) := by
  intro s hs output after h
  unfold Interpretation.output at h
  obtain ⟨v, middle, hv, hshown⟩ := Interpretation.bind_eq_ok.mp h
  rw [eq_of_expression hv] at hshown
  obtain ⟨_, _, ⟨⟩, hwritten⟩ := Interpretation.bind_eq_ok.mp hshown
  rw [hs, hsafe] at hwritten
  cases hwritten
  exact ⟨marks_escapeHtml _, hs⟩

/-- A binding adds no marks. -/
theorem keepsMarks_set : KeepsMarks "" (Interpretation.set r place head) := by
  intro s hs output after h
  unfold Interpretation.set at h
  cases hsplit : RawTag.splitBinding? head.raw.toList with
  | none =>
    rw [hsplit] at h
    cases h
  | some binding =>
    obtain ⟨left, right⟩ := binding
    rw [hsplit] at h
    dsimp only at h
    by_cases hname : RawTag.isName (String.ofList (Text.trim left)).toList = true
    · rw [if_pos hname] at h
      obtain ⟨v, middle, hv, hbound⟩ := Interpretation.bind_eq_ok.mp h
      rw [eq_of_expressionText hv] at hbound
      obtain ⟨_, _, ⟨⟩, hdone⟩ := Interpretation.bind_eq_ok.mp hbound
      cases hdone
      exact ⟨rfl, hs⟩
    · rw [if_neg hname] at h
      cases h

theorem KeepsMarks.withAutoescape (hx : KeepsMarks literal x) :
    KeepsMarks literal (Interpretation.withAutoescape true x) := by
  intro s hs output after h
  unfold Interpretation.withAutoescape at h
  obtain ⟨_, _, ⟨⟩, h⟩ := Interpretation.bind_eq_ok.mp h
  obtain ⟨_, _, ⟨⟩, h⟩ := Interpretation.bind_eq_ok.mp h
  obtain ⟨text, inner, htext, h⟩ := Interpretation.bind_eq_ok.mp h
  obtain ⟨_, _, ⟨⟩, h⟩ := Interpretation.bind_eq_ok.mp h
  cases h
  exact ⟨(hx _ rfl _ inner htext).1, hs⟩

/-- Escaping that is switched on anew keeps the marks of the body. -/
theorem KeepsMarks.autoescape (hx : KeepsMarks literal x)
    (harguments : head.arguments = [] ∨ head.arguments = ["true"]) :
    KeepsMarks literal (Interpretation.autoescape place head x) := by
  unfold Interpretation.autoescape
  rcases harguments with h | h <;> rw [h] <;> exact hx.withAutoescape

/-- Removing blanks between tags keeps the marks of the body. -/
theorem KeepsMarks.spaceless (hx : KeepsMarks literal x) :
    KeepsMarks literal (Interpretation.spaceless place head x) := by
  unfold Interpretation.spaceless
  split
  · intro s hs output after h
    obtain ⟨text, middle, htext, h⟩ := Interpretation.bind_eq_ok.mp h
    cases h
    rw [marks_squeeze]
    exact hx s hs text _ htext
  · exact keepsMarks_throw _

end Steps

/-- No simple tag has the name of a tag that escaped templates may hold. -/
def Registry.Unshadowed (r : Registry) : Prop :=
  ∀ name ∈ ["set", Registry.inclusionName, "spaceless", "autoescape"],
    Fields.find? name r.simpleTags = none

namespace Node

variable {r : Registry} {inclusion : String → Interpretation String} {literal : String → String}

private theorem keepsMarks_body (kind : TagKind) {children : List Node}
    (h : KeepsMarks (literalTextOf literal children)
      (Interpretation.nodes r inclusion children)) :
    KeepsMarks (if kind = .standalone then "" else literalTextOf literal children)
      (Interpretation.bodyOf kind (Interpretation.nodes r inclusion children)) := by
  cases kind with
  | block => exact h
  | standalone => exact keepsMarks_pure ""

private theorem keepsMarks_tag (hr : r.Unshadowed) {place : Place} {head : TagHead}
    {kind : TagKind} {children : List Node} {span : Span} (hhead : head.escapes = true)
    (hinclusion : ∀ identifier, head.name = Registry.inclusionName →
      head.literal? = some identifier → KeepsMarks (literal identifier) (inclusion identifier))
    (hchildren : KeepsMarks (literalTextOf literal children)
      (Interpretation.nodes r inclusion children)) :
    KeepsMarks (literalText literal (.tag head kind children span))
      (Interpretation.tag r place inclusion head
        (Interpretation.bodyOf kind (Interpretation.nodes r inclusion children))) := by
  have hbody := keepsMarks_body kind hchildren
  simp only [TagHead.escapes, Bool.or_eq_true, Bool.and_eq_true, beq_iff_eq] at hhead
  have hsimple : Fields.find? head.name r.simpleTags = none := by
    apply hr
    simp only [List.mem_cons]
    tauto
  unfold Interpretation.tag
  rw [hsimple, literalText]
  rcases hhead with ((hname | hname) | hname) | ⟨hname, harguments⟩
  · simpa [hname, Registry.inclusionName] using keepsMarks_set
  · cases hliteral : head.literal? with
    | none => simpa [hname, Registry.inclusionName] using keepsMarks_throw _
    | some identifier =>
      simpa [hname, Registry.inclusionName] using hinclusion identifier hname hliteral
  · simpa [hname, Registry.inclusionName] using hbody.spaceless
  · simpa [hname, Registry.inclusionName] using hbody.autoescape harguments

mutual

private theorem keepsMarks_node (hr : r.Unshadowed) : (node : Node) → node.escapes = true →
    (∀ head ∈ node.heads, ∀ identifier, head.name = Registry.inclusionName →
      head.literal? = some identifier → KeepsMarks (literal identifier) (inclusion identifier)) →
    KeepsMarks (node.literalText literal) (Interpretation.node r inclusion node)
  | .text s, _, _ => by
    rw [literalText, Interpretation.node]
    exact keepsMarks_pure s
  | .output e span, h, _ => by
    rw [escapes, Bool.not_eq_true'] at h
    rw [literalText, Interpretation.node]
    exact keepsMarks_output h
  | .tag head kind children span, h, hinclusion => by
    rw [escapes, Bool.and_eq_true] at h
    rw [Interpretation.node]
    have hchildren := keepsMarks_nodes hr children h.2 fun inner hinner ↦
      hinclusion inner (List.mem_cons_of_mem _ hinner)
    exact keepsMarks_tag hr h.1 (hinclusion head List.mem_cons_self) hchildren

/-- Interpreting escaped nodes gives the marks of their literal text. -/
private theorem keepsMarks_nodes (hr : r.Unshadowed) : (nodes : List Node) →
    escapesAll nodes = true →
    (∀ head ∈ headsOf nodes, ∀ identifier, head.name = Registry.inclusionName →
      head.literal? = some identifier → KeepsMarks (literal identifier) (inclusion identifier)) →
    KeepsMarks (literalTextOf literal nodes) (Interpretation.nodes r inclusion nodes)
  | [], _, _ => by
    rw [literalTextOf, Interpretation.nodes]
    exact keepsMarks_pure ""
  | node :: rest, h, hinclusion => by
    rw [escapesAll, Bool.and_eq_true] at h
    rw [literalTextOf, Interpretation.nodes]
    have hnode := keepsMarks_node hr node h.1 fun head hhead ↦
      hinclusion head (List.mem_append_left _ hhead)
    have hrest := keepsMarks_nodes hr rest h.2 fun head hhead ↦
      hinclusion head (List.mem_append_right _ hhead)
    exact hnode.append hrest

end

end Node

namespace Request

variable {r : Registry} {fs : FileSystem}

private theorem keepsMarks_source (hr : r.Unshadowed) {inclusion : String → Interpretation String}
    {literal : String → String} {text : String}
    (hescapes : ∀ nodes, Node.parse r.tagKind? text = .ok nodes → Node.escapesAll nodes = true)
    (hinclusion : ∀ nodes, Node.parse r.tagKind? text = .ok nodes →
      ∀ identifier ∈ Node.inclusions nodes,
        KeepsMarks (literal identifier) (inclusion identifier)) :
    KeepsMarks (literalOfText r literal text) (Interpretation.source r inclusion text) := by
  unfold literalOfText Interpretation.source
  cases hnodes : Node.parse r.tagKind? text with
  | error e => exact keepsMarks_throw e
  | ok nodes =>
    apply Node.keepsMarks_nodes hr nodes (hescapes nodes hnodes)
    intro head hhead identifier hname hliteral
    apply hinclusion nodes hnodes
    exact List.mem_filterMap.mpr ⟨head, hhead, by rw [if_pos hname, hliteral]⟩

/-- Interpreting an escaped file gives the marks of its literal text. -/
private theorem keepsMarks_file (hr : r.Unshadowed) (depth : Nat) (identifier : String)
    (hescapes : Escapes r fs (.file identifier)) :
    KeepsMarks (literalOfFile r fs depth identifier)
      (Interpretation.file r fs depth identifier) := by
  induction depth generalizing identifier with
  | zero => exact keepsMarks_throw _
  | succ depth ih =>
    rw [literalOfFile, Interpretation.file]
    by_cases haccess : r.fileAccess = true
    · rw [if_pos haccess]
      cases hpath : fs.resolve identifier r.roots with
      | error e => exact keepsMarks_throw e
      | ok path =>
        change KeepsMarks (match fs.textOf (.file path) with
          | .ok source => literalOfText r (literalOfFile r fs depth) source
          | .error _ => "") (do
            Interpretation.source r (Interpretation.file r fs depth)
              (← ofExcept (fs.textOf (.file path))))
        cases htext : fs.textOf (.file path) with
        | error e => exact keepsMarks_throw e
        | ok text =>
          have hpart : HasPart r fs (.file identifier) text := .file hpath htext
          apply keepsMarks_source hr
          · exact fun nodes hnodes ↦ hescapes text nodes hpart hnodes
          · intro nodes hnodes other hother
            apply ih
            intro part inner hinner
            exact hescapes part inner (.included hpart hnodes hother hinner)
    · rw [if_neg haccess]
      exact keepsMarks_throw _

/-- Interpreting an escaped request gives the marks of its literal text. -/
theorem keepsMarks (hr : r.Unshadowed) (depth : Nat) {q : Request} (hescapes : Escapes r fs q) :
    KeepsMarks (literal r fs depth q) (Interpretation.request r fs depth q) := by
  cases q with
  | file identifier => exact keepsMarks_file hr depth identifier hescapes
  | text text =>
    apply keepsMarks_source hr
    · exact fun nodes hnodes ↦ hescapes text nodes .text hnodes
    · intro nodes hnodes other hother
      apply keepsMarks_file hr
      intro part inner hinner
      exact hescapes part inner (.included .text hnodes hother hinner)

end Request

/-! ### Templates -/

/-- Two outputs of a template that a strict engine compiled hold the same marks, whatever the data,
if all output in the template is escaped: those of the literal text of the template. -/
theorem Template.marks_render {r : Registry} (hr : r.HasBuiltinTags) (hunshadowed : r.Unshadowed)
    (hstrict : r.policy = .strict) (hautoescape : r.autoescape = true) {fs : FileSystem}
    {serial : Nat} {earlier : List Request} {q : Request} {t : Template}
    (h : (((Engine.fresh r serial).served fs earlier).answer fs q).1 = .ok t)
    (hescapes : Request.Escapes r fs q) {depth : Nat} (hdepth : fs.size + 2 ≤ depth)
    {scope scope' : Scope} {calls calls' : CallLog} {output output' : String}
    (hrender : (t.render scope calls).1 = .ok output)
    (hrender' : (t.render scope' calls').1 = .ok output') :
    marks output = marks output' ∧
      marks output = marks (Request.literal r fs depth q) := by
  have hregistry : (Engine.fresh r serial).registry = r := rfl
  have hempty : (Engine.fresh r serial).loading.Sound r r fs := Engine.sound_empty serial r.cache
  obtain ⟨hserved, hsound⟩ := Engine.sound_served hregistry hempty (.refl r) hr.isPure earlier
  obtain ⟨hown, hwrites⟩ := Engine.writes_of_answer hr hstrict hserved hsound h hdepth
  have hkeeps := Request.keepsMarks hunshadowed depth hescapes
  -- One run at a time: the marks of an output are those of the literal text.
  have hmarks {scope : Scope} {calls : CallLog} {output : String}
      (hrender : (t.render scope calls).1 = .ok output) :
      marks output = marks (Request.literal r fs depth q) := by
    rw [render_of_writes hown hstrict hwrites] at hrender
    obtain ⟨⟨_, after⟩, hinterpreted, rfl⟩ := Computation.map_eq_ok.mp hrender
    exact (hkeeps _ hautoescape _ after hinterpreted).1
  exact ⟨(hmarks hrender).trans (hmarks hrender').symm, hmarks hrender⟩

/-- A property that the own text of a request has, and that passes from texts to the files they
include, holds of all parts. -/
private theorem Request.HasPart.of_closed {r : Registry} {fs : FileSystem} {P : String → Prop}
    (hclosed : ∀ text nodes, P text → Node.parse r.tagKind? text = .ok nodes →
      ∀ identifier ∈ Node.inclusions nodes, ∀ path part,
        fs.resolve identifier r.roots = .ok path → fs.textOf (.file path) = .ok part → P part)
    {q : Request}
    (hown : match q with
      | .text source => P source
      | .file identifier => ∀ path text, fs.resolve identifier r.roots = .ok path →
        fs.textOf (.file path) = .ok text → P text)
    {part : String} (h : HasPart r fs q part) : P part := by
  induction h with
  | text => exact hown
  | file hpath htext => exact hown _ _ hpath htext
  | included hpart hnodes hmem hinner ih ih' =>
    exact ih' (hclosed _ _ (ih hown) hnodes _ hmem)

private theorem escapes_capturedInclusion :
    Request.Escapes .strictDefault .oneInclusion (.text capturedInclusion) := by
  -- The text and the file that it includes are all parts.
  let P (text : String) : Prop :=
    text = capturedInclusion ∨ text = "\x7b% set y = x | upper %\x7d<b>\x7b\x7b y \x7d\x7d"
  have hparts (text : String) (nodes : List Node) (h : P text)
      (hnodes : Node.parse Registry.strictDefault.tagKind? text = .ok nodes) :
      Node.escapesAll nodes = true ∧ ∀ identifier ∈ Node.inclusions nodes, identifier = "a" := by
    have hall : ((Node.parse Registry.strictDefault.tagKind? text).toOption.all fun nodes ↦
        Node.escapesAll nodes && (Node.inclusions nodes).all (· == "a")) = true := by
      rcases h with rfl | rfl <;> decide +kernel
    rw [hnodes] at hall
    simpa [Except.toOption] using hall
  have hfile : ((FileSystem.oneInclusion.resolve "a" Registry.strictDefault.roots).bind fun path ↦
      FileSystem.oneInclusion.textOf (.file path)).toOption =
        some "\x7b% set y = x | upper %\x7d<b>\x7b\x7b y \x7d\x7d" := by
    decide +kernel
  intro part nodes hpart hnodes
  have hP : P part := by
    have hown : P capturedInclusion := .inl rfl
    refine Request.HasPart.of_closed (q := .text capturedInclusion) ?_ hown hpart
    intro text inner htext hinner identifier hmem path other hpath hother
    have hidentifier := (hparts text inner htext hinner).2 identifier hmem
    rw [hidentifier] at hpath
    rw [hpath, Except.bind, hother] at hfile
    exact .inr (Option.some.inj hfile)
  exact (hparts part nodes hP hnodes).1

private theorem exists_render_capturedInclusion {value : Value}
    (h : value = .string "i" ∨ value = .string "<i>") :
    ∃ output, Interpretation.render .strictDefault .oneInclusion 100 (.text capturedInclusion)
      [("x", value)] = .ok output := by
  have hok : (Interpretation.render .strictDefault .oneInclusion 100 (.text capturedInclusion)
      [("x", value)]).isOk = true := by
    rcases h with rfl | rfl <;> decide +kernel
  exact Computation.exists_eq_ok_of_isOk hok

/-- An output of a captured inclusion has the marks of the included file for a harmless value as for
one that would open a tag. -/
theorem Template.marks_render_capturedInclusion :
    ∃ t output output',
      (((Engine.fresh .strictDefault 1).served .oneInclusion []).answer .oneInclusion
        (.text capturedInclusion)).1 = .ok t ∧
      (t.render [("x", .string "i")] []).1 = .ok output ∧
      (t.render [("x", .string "<i>")] []).1 = .ok output' ∧ marks output = marks output' ∧
      marks output =
        marks (Request.literal .strictDefault .oneInclusion 100 (.text capturedInclusion)) := by
  have hr := Registry.hasBuiltinTags_strictDefault
  have hunshadowed : Registry.strictDefault.Unshadowed := fun _ _ ↦ rfl
  have hdepth : FileSystem.oneInclusion.size + 2 ≤ 100 := by decide +kernel
  have hstrict : Registry.strictDefault.policy = .strict := rfl
  have hregistry : (Engine.fresh .strictDefault 1).registry = .strictDefault := rfl
  have hempty : (Engine.fresh .strictDefault 1).loading.Sound .strictDefault .strictDefault
    .oneInclusion := Engine.sound_empty 1 _
  obtain ⟨t, hcompile⟩ := exists_compile_capturedInclusion
  have hanswer : ((Engine.fresh .strictDefault 1).answer .oneInclusion
    (.text capturedInclusion)).1 = .ok t := hcompile
  have h : (((Engine.fresh .strictDefault 1).served .oneInclusion []).answer .oneInclusion
    (.text capturedInclusion)).1 = .ok t := hanswer
  obtain ⟨hown, hwrites⟩ := Engine.writes_of_answer hr hstrict hregistry hempty hanswer hdepth
  have hrenders (scope : Scope) : (t.render scope []).1 =
      Interpretation.render .strictDefault .oneInclusion 100 (.text capturedInclusion) scope := by
    rw [render_of_writes hown hstrict hwrites]
  obtain ⟨output, houtput⟩ := exists_render_capturedInclusion (.inl rfl)
  obtain ⟨output', houtput'⟩ := exists_render_capturedInclusion (.inr rfl)
  rw [← hrenders] at houtput houtput'
  exact ⟨t, output, output', h, houtput, houtput', marks_render hr hunshadowed hstrict rfl h
    escapes_capturedInclusion hdepth houtput houtput'⟩

end Stencil
