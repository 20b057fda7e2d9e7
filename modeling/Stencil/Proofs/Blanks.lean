import Stencil.Proofs.SingleMarker
import Stencil.Proofs.Spelling

/-!
# Blanks around expressions

No lexeme begins with a blank, and none that is complete goes on with one. So the code of an
expression can be trimmed, and spaces can be put around it.
-/

namespace Stencil

variable {b : Char}

/-- A blank is no letter, no digit and no sign of a word. -/
theorem Lexeme.isWordPart_of_isBlank (h : Text.isBlank b = true) : isWordPart b = false := by
  have hunder : b ≠ '_' := by
    rintro rfl
    cases h
  have hdollar : b ≠ '$' := by
    rintro rfl
    cases h
  have hletters : b.isAlpha = false ∧ b.isDigit = false := by
    simp only [Text.isBlank, Bool.or_eq_true, Bool.and_eq_true, decide_eq_true_eq, beq_iff_eq] at h
    simp only [Char.isAlpha, Char.isUpper, Char.isLower, Char.isDigit, Bool.or_eq_false_iff,
      Bool.and_eq_false_iff, decide_eq_false_iff_not, UInt32.le_iff_toNat_le, ge_iff_le,
      Char.toNat_val, Char.reduceToNat]
    omega
  simp [isWordPart, isWordStart, hletters, hunder, hdollar]

theorem Text.isDigit_of_isBlank (h : isBlank b = true) : b.isDigit = false := by
  have hword := Lexeme.isWordPart_of_isBlank h
  rw [Lexeme.isWordPart, Bool.or_eq_false_iff] at hword
  exact hword.2

/-- Where a class of characters ends, a character outside of it does not show. -/
theorem Text.span_concat {p : Char → Bool} (h : p b = false) (cs : List Char) :
    (cs ++ [b]).takeWhile p = cs.takeWhile p ∧ (cs ++ [b]).dropWhile p = cs.dropWhile p ++ [b] := by
  induction cs with
  | nil => simp [h]
  | cons c cs ih => by_cases hc : p c <;> simp [hc, ih]

/-! ### Numbers -/

namespace Decimal

variable (h : Text.isBlank b = true)

include h

private theorem takeFraction_concat_blank (cs : List Char) :
    takeFraction (cs ++ [b]) = ((takeFraction cs).1, (takeFraction cs).2 ++ [b]) := by
  have hdigit := Text.isDigit_of_isBlank h
  rcases cs with _ | ⟨c, rest⟩
  · simp [takeFraction]
  by_cases hc : c = '.'
  · subst hc
    rcases rest with _ | ⟨d, rest⟩
    · simp [takeFraction, hdigit]
    · by_cases hd : d.isDigit <;> simp [takeFraction, hd, Text.span_concat hdigit]
  · simp [takeFraction, hc]

private theorem takePower_concat_blank (cs : List Char) :
    takePower (cs ++ [b]) = ((takePower cs).1, (takePower cs).2 ++ [b]) := by
  have hdigit := Text.isDigit_of_isBlank h
  rcases cs with _ | ⟨c, _ | ⟨d, _ | ⟨e, rest⟩⟩⟩
  · simp [takePower]
  · simp [takePower, hdigit]
  · by_cases hd : (c = 'e' ∨ c = 'E') ∧ d.isDigit = true <;> simp [takePower, hd, hdigit]
  · simp only [List.cons_append, takePower]
    split
    · simp [Text.span_concat hdigit]
    · split
      · rw [← List.cons_append]
        simp only [Text.span_concat hdigit]
      · rfl

private theorem takeUnsigned_concat_blank (negative : Bool) (cs : List Char) :
    takeUnsigned negative (cs ++ [b]) =
      ((takeUnsigned negative cs).1, (takeUnsigned negative cs).2 ++ [b]) := by
  obtain ⟨htake, hdrop⟩ := Text.span_concat (Text.isDigit_of_isBlank h) cs
  simp only [takeUnsigned, htake, hdrop, takeFraction_concat_blank h, takePower_concat_blank h]

/-- A blank after a number does not belong to it. -/
theorem takeLiteral?_concat_blank (c : Char) (rest : List Char) :
    takeLiteral? (c :: (rest ++ [b])) =
      (takeLiteral? (c :: rest)).map fun found ↦ (found.1, found.2 ++ [b]) := by
  have hunsigned (negative : Bool) (d : Char) (cs : List Char) :=
    takeUnsigned_concat_blank h negative (d :: cs)
  by_cases hminus : c = '-'
  · subst hminus
    rcases rest with _ | ⟨d, rest⟩
    · simp [takeLiteral?, Text.isDigit_of_isBlank h]
    · by_cases hd : d.isDigit <;> simp [takeLiteral?, hd, ← hunsigned]
  · by_cases hc : c.isDigit <;> simp [takeLiteral?, hminus, hc, ← hunsigned]

end Decimal

/-! ### Lexemes -/

namespace Lexeme

variable {q c : Char} {cs rest body after : List Char} {lexeme : Lexeme} {lexemes : List Lexeme}

private theorem ne_slash {c : Char} {rest : List Char} (hend : c = '\\' → rest = [] → False)
    (hnext : ∀ d more, c = '\\' → rest = d :: more → False) : c ≠ '\\' := by
  intro hslash
  cases rest with
  | nil => exact hend hslash rfl
  | cons d more => exact hnext d more hslash rfl

/-- What follows a literal does not belong to it. -/
theorem takeBody_append (h : takeBody q cs = .ok (body, after)) (more : List Char) :
    takeBody q (cs ++ more) = .ok (body, after ++ more) := by
  fun_induction takeBody q cs generalizing body after with
  | case1 => cases h
  | case2 => cases h
  | case3 => cases h
  | case4 c rest hc body after hbody ih =>
    cases h
    rw [List.cons_append, List.cons_append, takeBody, if_neg hc, ih hbody]
  | case5 => cases h
  | case6 rest hend hnext =>
    have hslash := ne_slash hend hnext
    cases h
    rw [List.cons_append, takeBody, if_pos rfl] <;> simp [hslash]
  | case7 c rest hend hnext hc body after hbody ih =>
    have hslash := ne_slash hend hnext
    cases h
    rw [List.cons_append, takeBody, if_neg hc, ih hbody] <;> simp [hslash]
  | case8 => cases h

/-- A blank does not close a literal that is open. -/
private theorem takeBody_concat_blank (hb : Text.isBlank b = true) (hq : q = '"' ∨ q = '\'')
    {seen : List Char} (h : takeBody q cs = .error seen) :
    ∃ seen', takeBody q (cs ++ [b]) = .error seen' := by
  have hslash : b ≠ '\\' := by
    rintro rfl
    cases hb
  have hquote : b ≠ q := by
    rintro rfl
    obtain rfl | rfl := hq <;> cases hb
  fun_induction takeBody q cs generalizing seen with
  | case1 => simp [takeBody, hslash, hquote]
  | case2 => by_cases hline : b = '\n' <;> simp [takeBody, hline]
  | case3 rest => simp [takeBody]
  | case4 => cases h
  | case5 c rest hc seen hbody ih =>
    obtain ⟨seen', hseen⟩ := ih hbody
    exact ⟨_, by rw [List.cons_append, List.cons_append, takeBody, if_neg hc, hseen]⟩
  | case6 => cases h
  | case7 => cases h
  | case8 c rest hend hnext hc seen hbody ih =>
    obtain ⟨seen', hseen⟩ := ih hbody
    have hslash := ne_slash hend hnext
    exact ⟨c :: seen', by rw [List.cons_append, takeBody, if_neg hc, hseen] <;> simp [hslash]⟩

/-- A blank after a lexeme does not belong to it, nor does it complete one. -/
private theorem take_concat_blank (h : Text.isBlank b = true) :
    take c (rest ++ [b]) = .ok (lexeme, after) ↔
      ∃ before, take c rest = .ok (lexeme, before) ∧ before ++ [b] = after := by
  obtain ⟨htake, hdrop⟩ := Text.span_concat (isWordPart_of_isBlank h) rest
  unfold take
  rw [htake, hdrop, Decimal.takeLiteral?_concat_blank h]
  split
  · simp
  split
  · next hquote =>
    cases hbody : takeBody c rest with
    | error seen =>
      obtain ⟨seen', hseen⟩ := takeBody_concat_blank h hquote hbody
      simp [hseen]
    | ok found => simp [takeBody_append hbody]
  · cases Decimal.takeLiteral? (c :: rest) with
    | none => cases sign? c <;> simp
    | some found => simp

/-- Lexemes begin with one that is taken. -/
theorem ofText_cons_eq_ok (hspace : isSpace c = false) : ofText (c :: rest) = .ok lexemes ↔
    ∃ lexeme after later, take c rest = .ok (lexeme, after) ∧ ofText after = .ok later ∧
      lexeme :: later = lexemes := by
  rw [ofText, hspace, if_neg (by decide)]
  split
  · next lexeme after htake => simp [htake, Computation.map_eq_ok]
  · next seen htake => simp [htake]

private theorem take_of_isBlank (h : Text.isBlank b = true) (rest : List Char) :
    take b rest = .error [b] := by
  have hword : isWordStart b = false := by
    have hpart := isWordPart_of_isBlank h
    rw [isWordPart, Bool.or_eq_false_iff] at hpart
    exact hpart.1
  have hquote : ¬(b = '"' ∨ b = '\'') := by
    rintro (rfl | rfl) <;> cases h
  have hminus : b ≠ '-' := by
    rintro rfl
    cases h
  have hnumber : Decimal.takeLiteral? (b :: rest) = none := by
    simp [Decimal.takeLiteral?, hminus, Text.isDigit_of_isBlank h]
  have hsign : sign? b = none := by
    unfold sign?
    split <;> first | rfl | cases h
  rw [take, hword, if_neg (by decide), if_neg hquote, hnumber, hsign]

/-- No lexeme begins with a blank. -/
theorem ofText_cons_blank (h : Text.isBlank b = true) :
    ofText (b :: rest) = .ok lexemes ↔ isSpace b = true ∧ ofText rest = .ok lexemes := by
  by_cases hspace : isSpace b = true
  · rw [ofText, if_pos hspace, and_iff_right hspace]
  · rw [ofText_cons_eq_ok (Bool.eq_false_iff.mpr hspace), take_of_isBlank h]
    simp [hspace]

/-- A blank after lexemes has to be one that may stand there. -/
theorem ofText_concat_blank (h : Text.isBlank b = true) :
    ofText (cs ++ [b]) = .ok lexemes ↔ ofText cs = .ok lexemes ∧ isSpace b = true := by
  fun_induction ofText cs generalizing lexemes with
  | case1 => rw [List.nil_append, ofText_cons_blank h, ofText, and_comm]
  | case2 c rest hspace ih =>
    rw [List.cons_append, ofText, if_pos hspace]
    exact ih
  | case3 c rest hspace lexeme after htake ih =>
    rw [List.cons_append, ofText_cons_eq_ok (Bool.eq_false_iff.mpr hspace), Computation.map_eq_ok]
    constructor
    · rintro ⟨_, _, later, htake', hlater, rfl⟩
      obtain ⟨before, hbefore, rfl⟩ := (take_concat_blank h).mp htake'
      cases htake.symm.trans hbefore
      obtain ⟨hafter, hb⟩ := ih.mp hlater
      exact ⟨⟨later, hafter, rfl⟩, hb⟩
    · rintro ⟨⟨later, hafter, rfl⟩, hb⟩
      exact ⟨lexeme, after ++ [b], later, (take_concat_blank h).mpr ⟨after, htake, rfl⟩,
        ih.mpr ⟨hafter, hb⟩, rfl⟩
  | case4 c rest hspace seen htake =>
    rw [List.cons_append, ofText_cons_eq_ok (Bool.eq_false_iff.mpr hspace)]
    simp [take_concat_blank h, htake]

theorem ofText_trimStart (h : ofText cs = .ok lexemes) :
    ofText (Text.trimStart cs) = .ok lexemes := by
  induction cs with
  | nil => exact h
  | cons c cs ih =>
    by_cases hblank : Text.isBlank c = true
    · rw [Text.trimStart, List.dropWhile_cons_of_pos hblank]
      exact ih ((ofText_cons_blank hblank).mp h).2
    · rwa [Text.trimStart, List.dropWhile_cons_of_neg hblank]

theorem ofText_trimEnd (h : ofText cs = .ok lexemes) : ofText (Text.trimEnd cs) = .ok lexemes := by
  induction cs using List.reverseRecOn with
  | nil => exact h
  | append_singleton cs c ih =>
    by_cases hblank : Text.isBlank c = true
    · rw [Text.trimEnd, List.reverse_concat, Text.trimStart, List.dropWhile_cons_of_pos hblank]
      exact ih ((ofText_concat_blank hblank).mp h).1
    · rwa [Text.trimEnd, List.reverse_concat, Text.trimStart,
        List.dropWhile_cons_of_neg hblank, ← List.reverse_concat, List.reverse_reverse]

/-- A text has the same lexemes when it is trimmed. -/
theorem ofText_trim (h : ofText cs = .ok lexemes) : ofText (Text.trim cs) = .ok lexemes :=
  ofText_trimEnd (ofText_trimStart h)

end Lexeme

/-! ### Expressions -/

namespace Expression

variable {cs : List Char} {e : Expression}

theorem parse_eq_ok {code : String} : parse code = .ok e ↔
    ∃ found, Lexeme.ofText code.toList = .ok found ∧ ofLexemes found = .ok e := by
  rw [parse, lexemes]
  cases Lexeme.ofText code.toList <;> simp [Except.bind]

theorem parse_cons_blank (h : Text.isBlank b = true) :
    parse (String.ofList (b :: cs)) = .ok e ↔
      Lexeme.isSpace b = true ∧ parse (String.ofList cs) = .ok e := by
  simp only [parse_eq_ok, String.toList_ofList, Lexeme.ofText_cons_blank h, and_assoc,
    exists_and_left]

theorem parse_concat_blank (h : Text.isBlank b = true) :
    parse (String.ofList (cs ++ [b])) = .ok e ↔
      Lexeme.isSpace b = true ∧ parse (String.ofList cs) = .ok e := by
  simp only [parse_eq_ok, String.toList_ofList, Lexeme.ofText_concat_blank h,
    and_comm (b := Lexeme.isSpace b = true), and_assoc, exists_and_left]

theorem parse_trimEnd (h : parse (String.ofList cs) = .ok e) :
    parse (String.ofList (Text.trimEnd cs)) = .ok e := by
  simp only [parse_eq_ok, String.toList_ofList] at h ⊢
  exact h.imp fun _ ↦ .imp_left Lexeme.ofText_trimEnd

/-- The code of an expression can be trimmed. -/
theorem parse_trim (h : parse (String.ofList cs) = .ok e) :
    parse (String.ofList (Text.trim cs)) = .ok e := by
  simp only [parse_eq_ok, String.toList_ofList] at h ⊢
  exact h.imp fun _ ↦ .imp_left Lexeme.ofText_trim

/-- A space may stand before the code of an expression and after it. -/
theorem parse_spaced {code : String} :
    parse (" " ++ code ++ " ") = .ok e ↔ parse code = .ok e := by
  have hspace : Text.isBlank ' ' = true := rfl
  have hcode : " " ++ code ++ " " = String.ofList (' ' :: code.toList ++ [' ']) := by
    rw [← String.ofList_toList (s := " " ++ code ++ " ")]
    simp
  rw [hcode, parse_concat_blank hspace, parse_cons_blank hspace, String.ofList_toList]
  simp [Lexeme.isSpace]

/-- An output marker with a space on either side of the code. -/
def shown (code : String) : String := "\x7b\x7b " ++ code ++ " \x7d\x7d"

end Expression

/-- The code of an expression, written so, is one output that starts the text. -/
theorem Node.parse_shown (r : Registry) {code : String} {e : Expression}
    (h : Expression.parse code = .ok e) :
    ∃ stop, parse r.tagKind? (Expression.shown code) = .ok [.output e ⟨.origin, stop⟩] := by
  have hsource : Expression.shown code =
      String.ofList (Marker.output.around (" " ++ code ++ " ").toList) := by
    rw [Expression.shown, ← String.toList_inj]
    simp [Marker.around, Marker.opener, Marker.closer]
  have hspaced := Expression.parse_spaced.mpr h
  rw [← String.ofList_toList (s := " " ++ code ++ " ")] at hspaced
  exact ⟨_, hsource ▸ parse_around_expression r hspaced⟩

end Stencil
