import Mathlib
import Stencil.Proofs.Injection

/-!
# Escaping by the flag and by the filter

The flag of a registry escapes the text of an output. The filter `escape` escapes the strings inside
a value instead, and its name switches the flag off for the output. Both give the same text exactly
if the text shows no object that has fields: the names and the quotes in the JSON text of an object
are not strings of the value, so that the filter leaves them as they are.
-/

namespace Stencil

namespace Value

mutual

/-- Whether the output text of a value contains the JSON text of an object that has fields. -/
def showsFields : Value → Bool
  | .array items => anyShowsFields items
  | .object fields => !fields.isEmpty
  | _ => false

/-- Whether the output text of some item contains the JSON text of an object that has fields. -/
def anyShowsFields : List Value → Bool
  | [] => false
  | v :: rest => v.showsFields || anyShowsFields rest

end

end Value

/-! ### Lists of texts -/

/-- A list of texts is escaped by escaping each of them. -/
private theorem escapeHtml_intercalate (texts : List String) :
    Text.escapeHtml (String.intercalate "," texts) =
      String.intercalate "," (texts.map Text.escapeHtml) := by
  induction texts with
  | nil => rfl
  | cons first rest ih =>
    cases rest with
    | nil => rfl
    | cons second rest =>
      have hcomma : Text.escapeHtml "," = "," := rfl
      rw [String.intercalate_cons_cons, Text.escapeHtml_append, Text.escapeHtml_append, ih, hcomma]
      simp only [List.map_cons, String.intercalate_cons_cons]

/-- What is marked in one text of a list is marked in the list. -/
private theorem mem_marks_intercalate {c : Char} {text : String} {texts : List String}
    (hmem : text ∈ texts) (hmark : c ∈ marks text) :
    c ∈ marks (String.intercalate "," texts) := by
  induction texts with
  | nil => cases hmem
  | cons first rest ih =>
    cases rest with
    | nil =>
      obtain rfl := List.mem_singleton.mp hmem
      exact hmark
    | cons second rest =>
      rw [String.intercalate_cons_cons, marks_append, marks_append]
      rcases List.mem_cons.mp hmem with rfl | hlater
      · exact List.mem_append_left _ (List.mem_append_left _ hmark)
      · exact List.mem_append_right _ (ih hlater)

/-! ### Values -/

namespace Value

mutual

/-- Where no object with fields is shown, the filter escapes what the flag would escape. -/
private theorem display_escaped : (v : Value) → v.showsFields = false →
    (v.mapText Text.escapeHtml).display = Text.escapeHtml v.display
  | .null, _ => rfl
  | .bool _, _ => rfl
  | .number _, _ => rfl
  | .string _, _ => rfl
  | .array items, h => by
    rw [showsFields] at h
    rw [mapText, mapStrings, display, display, escapeHtml_intercalate]
    exact congrArg _ (displayItems_escaped items h)
  | .object [], _ => rfl
  | .object (_ :: _), h => by cases h

private theorem displayItems_escaped : (items : List Value) → anyShowsFields items = false →
    displayItems (mapItems display Text.escapeHtml items) =
      (displayItems items).map Text.escapeHtml
  | [], _ => rfl
  | v :: rest, h => by
    rw [anyShowsFields, Bool.or_eq_false_iff] at h
    rw [mapItems, displayItems, displayItems, List.map_cons, ← display_escaped v h.1,
      ← displayItems_escaped rest h.2, mapText]

end

/-- The JSON text of an object with fields has the quotes of their names. -/
private theorem quote_mem_marks_json (field : String × Value) (rest : List (String × Value)) :
    '"' ∈ marks (json (.object (field :: rest))) := by
  have hfield : '"' ∈ marks (jsonString field.1 ++ ":" ++ json field.2) := by
    rw [jsonString, marks_append, marks_append, marks_append, marks_append]
    exact List.mem_append_left _ (List.mem_append_left _ (List.mem_append_left _
      (List.mem_append_left _ (by decide))))
  rw [json, marks_append, marks_append, jsonFields]
  apply List.mem_append_left
  apply List.mem_append_right
  exact mem_marks_intercalate List.mem_cons_self hfield

mutual

/-- Where an object with fields is shown, its quotes are there whatever is done to the strings. -/
private theorem quote_mem_marks (f : String → String) : (v : Value) → v.showsFields = true →
    '"' ∈ marks (v.mapText f).display
  | .array items, h => by
    rw [showsFields] at h
    rw [mapText, mapStrings, display]
    obtain ⟨text, hmem, hmark⟩ := exists_quote_mem_marks f items h
    exact mem_marks_intercalate hmem hmark
  | .object ((name, v) :: rest), _ => by
    rw [mapText, mapStrings, mapFields, display]
    exact quote_mem_marks_json _ _
  | .object [], h => by cases h
  | .null, h => by cases h
  | .bool _, h => by cases h
  | .number _, h => by cases h
  | .string _, h => by cases h

private theorem exists_quote_mem_marks (f : String → String) : (items : List Value) →
    anyShowsFields items = true →
    ∃ text ∈ displayItems (mapItems display f items), '"' ∈ marks text
  | [], h => by cases h
  | v :: rest, h => by
    rw [anyShowsFields, Bool.or_eq_true] at h
    rw [mapItems, displayItems]
    rcases h with h | h
    · exact ⟨_, List.mem_cons_self, quote_mem_marks f v h⟩
    · obtain ⟨text, hmem, hmark⟩ := exists_quote_mem_marks f rest h
      exact ⟨text, List.mem_cons_of_mem _ hmem, hmark⟩

end

/-- The filter leaves no mark in the output exactly if no object with fields is shown. -/
theorem marks_escaped_eq_nil_iff (v : Value) :
    marks (v.mapText Text.escapeHtml).display = [] ↔ v.showsFields = false := by
  constructor
  · intro hmarks
    by_contra hshows
    have hquote := quote_mem_marks Text.escapeHtml v (Bool.not_eq_false _ ▸ hshows)
    rw [hmarks] at hquote
    cases hquote
  · intro hshows
    rw [display_escaped v hshows, marks_escapeHtml]

/-- The filter gives what the flag gives exactly if no object with fields is shown. -/
theorem display_escaped_eq_iff (v : Value) :
    (v.mapText Text.escapeHtml).display = Text.escapeHtml v.display ↔ v.showsFields = false := by
  constructor
  · intro hsame
    rw [← marks_escaped_eq_nil_iff, hsame, marks_escapeHtml]
  · exact display_escaped v

end Value

/-! ### Templates -/

/-- Writing an expression adds its text to the output, escaped if the flag is on and no filter of the
expression switches it off. -/
theorem Render.writeExpression_apply {e : BoundExpression} {s : RenderState} {value : Value}
    (hvalue : e.evaluate s.scope = .ok value) :
    writeExpression e s = (.ok (), { s with output := s.output ++
      if s.autoescape && !e.isSafe then Text.escapeHtml value.display else value.display }) := by
  unfold writeExpression evaluate autoescape write
  by_cases hflag : s.autoescape = true ∧ e.isSafe = false <;> simp [hvalue, hflag]

/-- A template with a single output renders the text that the output writes. -/
theorem Template.render_output {t : Template} {e : BoundExpression} (hbody : t.body = [.output e])
    {scope : Scope} {value : Value} (hvalue : e.evaluate scope = .ok value) (calls : CallLog) :
    t.render scope calls =
      (.ok (if t.registry.autoescape && !e.isSafe then Text.escapeHtml value.display
        else value.display), calls) := by
  have hwrite := Render.writeExpression_apply (s := t.initialState scope calls) hvalue
  unfold render Body.write
  rw [hbody, Instruction.runAll, Instruction.run, Instruction.runAll, Computation.bind_apply, hwrite]
  simp [initialState]

/-- The template for a text that shows `x` through some filters, as the default set-up compiles it. -/
private def showing (serial : Nat) (workingDirectory : Path) (source : String)
    (filters : FilterChain) : Template :=
  ⟨.source source, serial + 1, .ofOptions serial workingDirectory .default,
    [.output ⟨.named "x", filters⟩]⟩

private theorem compile_showing (serial : Nat) (workingDirectory : Path) (fs : FileSystem) :
    let compile (source : String) :=
      ((Engine.ofOptions serial workingDirectory .default).compile fs source).1
    let showing := showing serial workingDirectory
    compile "\x7b\x7b x \x7d\x7d" = .ok (showing "\x7b\x7b x \x7d\x7d" []) ∧
    compile "\x7b\x7b x|escape \x7d\x7d" =
      .ok (showing "\x7b\x7b x|escape \x7d\x7d" [⟨"escape", .escape, []⟩]) ∧
    compile "\x7b\x7b x|e \x7d\x7d" =
      .ok (showing "\x7b\x7b x|e \x7d\x7d" [⟨"e", .escape, []⟩]) :=
  ⟨by cbv, by cbv, by cbv⟩

variable {serial : Nat} {workingDirectory : Path} {source : String}

private theorem render_showing_plain (scope : Scope) (calls : CallLog) :
    (showing serial workingDirectory source []).render scope calls =
      (.ok (Text.escapeHtml ((Fields.find? "x" scope).getD .null).display), calls) :=
  Template.render_output (e := ⟨.named "x", []⟩) rfl rfl calls

private theorem render_showing_filtered {name : String} (hname : name = "escape" ∨ name = "e")
    (scope : Scope) (calls : CallLog) :
    (showing serial workingDirectory source [⟨name, .escape, []⟩]).render scope calls =
      (.ok (((Fields.find? "x" scope).getD .null).mapText Text.escapeHtml).display, calls) := by
  rcases hname with rfl | rfl
  · exact Template.render_output (e := ⟨.named "x", [⟨"escape", .escape, []⟩]⟩) rfl rfl calls
  · exact Template.render_output (e := ⟨.named "x", [⟨"e", .escape, []⟩]⟩) rfl rfl calls

/-- An output that is escaped by the filter, under its long or its short name, is the output that the
flag escapes, and free of marks, exactly if its value shows no object with fields. -/
theorem Template.render_escape (serial : Nat) (workingDirectory : Path) (fs : FileSystem) :
    ∃ plain long short : Template,
      ((Engine.ofOptions serial workingDirectory .default).compile fs
        "\x7b\x7b x \x7d\x7d").1 = .ok plain ∧
      ((Engine.ofOptions serial workingDirectory .default).compile fs
        "\x7b\x7b x|escape \x7d\x7d").1 = .ok long ∧
      ((Engine.ofOptions serial workingDirectory .default).compile fs
        "\x7b\x7b x|e \x7d\x7d").1 = .ok short ∧
      ∀ (scope : Scope) (calls : CallLog),
        let value := (Fields.find? "x" scope).getD .null
        ∃ byFlag byFilter : String,
          plain.render scope calls = (.ok byFlag, calls) ∧
          long.render scope calls = (.ok byFilter, calls) ∧
          short.render scope calls = (.ok byFilter, calls) ∧
          byFlag = Text.escapeHtml value.display ∧
          byFilter = (value.mapText Text.escapeHtml).display ∧
          (byFilter = byFlag ↔ value.showsFields = false) ∧
          (marks byFilter = [] ↔ value.showsFields = false) := by
  obtain ⟨hplain, hlong, hshort⟩ := compile_showing serial workingDirectory fs
  refine ⟨_, _, _, hplain, hlong, hshort, ?_⟩
  intro scope calls value
  exact ⟨_, _, render_showing_plain scope calls, render_showing_filtered (.inl rfl) scope calls,
    render_showing_filtered (.inr rfl) scope calls, rfl, rfl, value.display_escaped_eq_iff,
    value.marks_escaped_eq_nil_iff⟩

/-- The names of an object pass the filter as they are, and so do the quotes around its strings. -/
theorem Template.exists_render_escape_ne :
    ∃ plain short : Template,
      ((Engine.ofOptions 0 ⟨"/"⟩ .default).compile ⟨[], []⟩
        "\x7b\x7b x \x7d\x7d").1 = .ok plain ∧
      ((Engine.ofOptions 0 ⟨"/"⟩ .default).compile ⟨[], []⟩
        "\x7b\x7b x|e \x7d\x7d").1 = .ok short ∧
      plain.render [("x", .object [("<b>", .string "y")])] [] =
        (.ok "\x7b&quot;&lt;b&gt;&quot;:&quot;y&quot;\x7d", []) ∧
      short.render [("x", .object [("<b>", .string "y")])] [] =
        (.ok "\x7b\"<b>\":\"y\"\x7d", []) := by
  obtain ⟨hplain, -, hshort⟩ := compile_showing 0 ⟨"/"⟩ ⟨[], []⟩
  exact ⟨_, _, hplain, hshort, render_showing_plain _ _, render_showing_filtered (.inr rfl) _ _⟩

end Stencil
