import Stencil.Proofs.Arguments
import Stencil.Proofs.Blanks
import Stencil.Proofs.Escaping

/-!
# Literals with added slashes

The filter `addslashes` puts a backslash before quotes of both kinds and before backslashes. Between
quotes of either kind such a text is a literal for the text that it was made from: more is escaped
than the quotes around it ask for, and all of it is resolved again.
-/

namespace Stencil

/-- The characters that `addslashes` puts a backslash before. -/
private abbrev IsSlashed (c : Char) : Prop := c = '\\' ∨ c = '\'' ∨ c = '"'

private theorem addSlashes_eq_slash (cs : List Char) :
    Filter.addSlashes cs = Escape.slash IsSlashed cs := rfl

namespace Escape

variable {c : Char}

/-! ### Between double quotes -/

private theorem resolve_double_slashed (h : IsSlashed c) (i : Nat) (cs : List Char) :
    resolve .double i ('\\' :: c :: cs) = (resolve .double (i + 2) cs).map (c :: ·) := by
  obtain rfl | rfl | rfl := h <;> rfl

/-- Between double quotes every added backslash is resolved. -/
private theorem resolve_double_slash (i : Nat) (cs : List Char) :
    resolve .double i (slash IsSlashed cs ++ ['"']) = .ok cs := by
  induction cs generalizing i with
  | nil => exact resolve_double_end i
  | cons c cs ih =>
    by_cases hslashed : IsSlashed c
    · rw [slash_cons_of_escaped hslashed, List.cons_append, List.cons_append,
        resolve_double_slashed hslashed, ih, Except.map]
    · obtain ⟨hslash, hquotes⟩ := not_or.mp hslashed
      rw [slash_cons_of_plain hslashed, List.cons_append,
        resolve_double_plain hslash (not_or.mp hquotes).2, ih, Except.map]

/-! ### Between single quotes -/

private theorem head?_slash_ne (cs : List Char) : (slash IsSlashed cs).head? ≠ some '\'' := by
  cases cs with
  | nil => exact nofun
  | cons c cs =>
    by_cases hslashed : IsSlashed c
    · rw [slash_cons_of_escaped hslashed]
      exact nofun
    · rw [slash_cons_of_plain hslashed]
      exact fun h ↦ hslashed (.inr (.inl (Option.some.inj h)))

/-- Without the backslashes of its single quotes the text is protected for double quotes. -/
private theorem unescape_slash (cs : List Char) :
    unescape '\'' (slash IsSlashed cs) = protect '"' cs := by
  induction cs with
  | nil => rfl
  | cons c cs ih =>
    by_cases hsingle : c = '\''
    · subst hsingle
      rw [slash_cons_of_escaped (.inr (.inl rfl)), unescape_escaped,
        protect_cons_of_plain (by decide) (by decide), ih]
    by_cases hescaped : c = '\\' ∨ c = '"'
    · have hfirst : (c :: slash IsSlashed cs).head? ≠ some '\'' :=
        fun h ↦ hsingle (Option.some.inj h)
      rw [slash_cons_of_escaped (hescaped.imp_right .inr), protect_cons_of_escaped hescaped,
        unescape_cons fun _ ↦ hfirst, unescape_cons fun _ ↦ head?_slash_ne cs, ih]
    · obtain ⟨hslash, hdouble⟩ := not_or.mp hescaped
      rw [slash_cons_of_plain (by simp [hslash, hsingle, hdouble]),
        protect_cons_of_plain hslash hdouble, unescape_cons (fun h ↦ absurd h hslash), ih]

/-- Where only backslashes are doubled, the double quotes get theirs. -/
private theorem escapeQuotes_protect (cs : List Char) :
    escapeQuotes (protect '\\' cs) = protect '"' cs := by
  induction cs with
  | nil => rfl
  | cons c cs ih =>
    by_cases hslash : c = '\\'
    · subst hslash
      rw [protect_cons_of_escaped (.inl rfl), protect_cons_of_escaped (.inl rfl),
        escapeQuotes_cons (by decide), escapeQuotes_cons (by decide), ih]
    by_cases hdouble : c = '"'
    · subst hdouble
      rw [protect_cons_of_plain hslash hslash, protect_cons_of_escaped (.inr rfl),
        escapeQuotes_quote, ih]
    · rw [protect_cons_of_plain hslash hslash, protect_cons_of_plain hslash hdouble,
        escapeQuotes_cons hdouble, ih]

/-! ### What the literals denote -/

/-- Between quotes of either kind a text with added slashes denotes the text. -/
theorem denote_addSlashes {q : Char} (hq : q = '"' ∨ q = '\'') (cs : List Char) :
    denote q (Filter.addSlashes cs) = .ok cs := by
  rw [addSlashes_eq_slash]
  by_cases hslash : '\\' ∈ slash IsSlashed cs
  · rw [denote_eq_ok_iff hslash]
    obtain rfl | rfl := hq
    · exact resolve_double_slash 1 cs
    · rw [requote, if_neg (by decide), unescape_slash, unescape_protect (by decide),
        escapeQuotes_protect]
      exact resolve_double_protect 1 cs
  · rw [denote, if_pos hslash, slash_eq_self hslash]

end Escape

/-- Between quotes of either kind a text with added slashes is a literal for the text. -/
theorem Expression.parse_addSlashes {q : String} (hq : q = "\"" ∨ q = "'") (text : String) :
    parse (q ++ String.ofList (Filter.addSlashes text.toList) ++ q) =
      .ok ⟨.literal (.string text), []⟩ := by
  obtain ⟨delimiter, hdelimiter, rfl⟩ :
      ∃ delimiter, (delimiter = '"' ∨ delimiter = '\'') ∧ q = String.ofList [delimiter] := by
    obtain rfl | rfl := hq
    · exact ⟨'"', .inl rfl, rfl⟩
    · exact ⟨'\'', .inr rfl, rfl⟩
  have hslashed : IsSlashed delimiter := by obtain rfl | rfl := hdelimiter <;> decide
  have hbody := Lexeme.takeBody_slash (.inl rfl) hslashed (by decide)
    (Lexeme.ne_escape_of_quote hdelimiter) text.toList []
  rw [← String.ofList_append, ← String.ofList_append]
  exact (parse_quoted_eq_ok hdelimiter hbody text).mpr (Escape.denote_addSlashes hdelimiter _)

/-- What `addslashes` makes of a text is read back as the text. In every session without escaping, at
any point of it, the output of a literal with this body, between quotes of either kind, renders the
text in every scope. -/
theorem Session.render_addSlashes {serial : Nat} {workingDirectory : Path} {o : Options}
    {fs : FileSystem} {commands : List Command} (text : String) {q : String}
    (hq : q = "\"" ∨ q = "'") :
    let s := (start serial workingDirectory o fs).after commands
    s.engine.registry.autoescape = false →
    ∃ filter slashed,
      Fields.find? "addslashes" (Fields.ofList Filter.builtins) = some filter ∧
      (∀ arguments, filter.apply (.string text) arguments = .ok (.string slashed)) ∧
      ∃ t, (s.engine.compile s.files (Expression.shown (q ++ slashed ++ q))).1 = .ok t ∧
        ∀ scope calls, t.render scope calls = (.ok text, calls) := by
  intro s hescape
  refine ⟨.ofText Filter.addSlashes, String.ofList (Filter.addSlashes text.toList), rfl,
    fun _ ↦ rfl, ?_⟩
  obtain ⟨span, hnodes⟩ :=
    Node.parse_shown s.engine.registry (Expression.parse_addSlashes hq text)
  have hsettles := settles_of_loadsOf_eq_nil rfl hnodes rfl fun _ ↦ .error .filesUnavailable
  rw [Node.compileAll_output rfl] at hsettles
  obtain ⟨t, hout, hregistry, hbody⟩ := hsettles
  refine ⟨t, hout, fun scope calls ↦ ?_⟩
  rw [Template.render_output hbody rfl, hregistry, hescape]
  rfl

/-- Backslashes, quotes of both kinds and marks come through between single quotes. -/
theorem Session.render_addSlashes_crowded :
    let text := "\\\"\x7d\x7d'\x7b%\\"
    let s := (start 0 ⟨"/"⟩ { Options.default with autoescape := false } ⟨[], []⟩).after []
    s.engine.registry.autoescape = false ∧
    ∃ t, (s.engine.compile s.files
        (Expression.shown "'\\\\\\\"\x7d\x7d\\'\x7b%\\\\'")).1 = .ok t ∧
      ∀ scope calls, t.render scope calls = (.ok text, calls) := by
  intro text s
  have hescape : s.engine.registry.autoescape = false := rfl
  obtain ⟨filter, slashed, hfilter, hslashed, h⟩ :=
    @render_addSlashes 0 ⟨"/"⟩ { Options.default with autoescape := false } ⟨[], []⟩ [] text "'"
      (.inr rfl) hescape
  cases hfilter
  have hadded : String.ofList (Filter.addSlashes text.toList) =
      "\\\\\\\"\x7d\x7d\\'\x7b%\\\\" := by
    decide +kernel
  have hfound : String.ofList (Filter.addSlashes text.toList) = slashed :=
    Value.string.inj (Except.ok.inj (hslashed []))
  rw [← hfound, hadded] at h
  exact ⟨hescape, h⟩

end Stencil
