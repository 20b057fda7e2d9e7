import Mathlib.Data.List.TakeWhile
import Stencil.Expression.Parse
import Stencil.Proofs.Segments
import Stencil.Text.Blank

/-!
# Sealed code

Code is sealed if it closes its string literals and has no character of a mark outside of them. The
marker around sealed code ends where it should, whatever the literals contain. All code that is an
expression is sealed.
-/

namespace Stencil

/-- The characters that marks are written with. -/
def Marker.alphabet : List Char := ['\x7b', '\x7d', '%', '#']

/-- Code in a marker. -/
def Marker.around (m : Marker) (code : List Char) : List Char := m.opener ++ code ++ m.closer

namespace Text

/-- Whether a character has no meaning of its own in code: it is no quote and in no mark. -/
def IsPlain (c : Char) : Prop := c ∉ Marker.alphabet ++ ['"', '\'']

/-- Whether code, read in a quoting state, closes its string literals and has no character of a mark
outside of them. -/
def Sealed : Quoting → List Char → Prop
  | quoting, [] => quoting = .bare
  | quoting, c :: rest => (quoting = .bare → c ∉ Marker.alphabet) ∧ Sealed (quoting.step c) rest

/-- The signs that nest in expressions. -/
def brackets : List Char := ['(', ')', '[', ']']

instance : DecidablePred IsPlain :=
  fun c ↦ inferInstanceAs (Decidable (c ∉ Marker.alphabet ++ ['"', '\'']))

instance decidableSealed : (quoting : Quoting) → (cs : List Char) → Decidable (Sealed quoting cs)
  | quoting, [] => inferInstanceAs (Decidable (quoting = .bare))
  | quoting, c :: rest =>
    have := decidableSealed (quoting.step c) rest
    inferInstanceAs (Decidable ((quoting = .bare → c ∉ Marker.alphabet) ∧
      Sealed (quoting.step c) rest))

/-! ### Plain characters -/

/-- A class of characters is plain if no quote and no character of a mark is in it. -/
theorem isPlain_of {p : Char → Bool} (hp : (Marker.alphabet ++ ['"', '\'']).any p = false)
    {c : Char} (h : p c = true) : IsPlain c :=
  fun hmem ↦ List.any_eq_false.mp hp c hmem h

theorem isPlain_of_isBlank {c : Char} (h : isBlank c = true) : IsPlain c :=
  isPlain_of (by decide) h

theorem IsPlain.notMem_alphabet {c : Char} (h : IsPlain c) : c ∉ Marker.alphabet :=
  fun hmem ↦ h (List.mem_append_left _ hmem)

theorem IsPlain.step_bare {c : Char} (h : IsPlain c) : Quoting.bare.step c = .bare := by
  refine if_neg fun hquote ↦ h (List.mem_append_right _ ?_)
  rcases hquote with rfl | rfl <;> decide

private theorem quote_notMem_alphabet {c : Char} (h : c = '"' ∨ c = '\'') :
    c ∉ Marker.alphabet := by
  rcases h with rfl | rfl <;> decide

/-! ### Sealed code -/

theorem sealed_of_isPlain {cs : List Char} (h : ∀ c ∈ cs, IsPlain c) : Sealed .bare cs := by
  induction cs with
  | nil => rfl
  | cons c rest ih =>
    have hc := h c List.mem_cons_self
    refine ⟨fun _ ↦ hc.notMem_alphabet, ?_⟩
    rw [hc.step_bare]
    exact ih fun d hd ↦ h d (List.mem_cons_of_mem _ hd)

theorem IsPlain.sealed {c : Char} (h : IsPlain c) : Sealed .bare [c] :=
  sealed_of_isPlain fun _ hd ↦ List.mem_singleton.mp hd ▸ h

namespace Sealed

theorem append {quoting : Quoting} {a b : List Char} (ha : Sealed quoting a)
    (hb : Sealed .bare b) : Sealed quoting (a ++ b) := by
  induction a generalizing quoting with
  | nil =>
    have hbare : quoting = .bare := ha
    rwa [hbare]
  | cons c rest ih => exact ⟨ha.1, ih ha.2⟩

theorem run_eq {quoting : Quoting} {cs : List Char} (h : Sealed quoting cs) :
    quoting.run cs = .bare := by
  induction cs generalizing quoting with
  | nil => exact h
  | cons c rest ih => exact ih h.2

/-- Whether a quote ends the literal that a reader is in. -/
def Delimited : Quoting → Prop
  | .bare => True
  | .inside delimiter _ => delimiter = '"' ∨ delimiter = '\''

theorem delimited_step {quoting : Quoting} (h : Delimited quoting) (c : Char) :
    Delimited (quoting.step c) := by
  match quoting with
  | .bare =>
    by_cases hquote : c = '"' ∨ c = '\''
    · rw [Quoting.step, if_pos hquote]
      exact hquote
    · rw [Quoting.step, if_neg hquote]
      trivial
  | .inside delimiter true => exact h
  | .inside delimiter false =>
    by_cases hescape : c = '\\'
    · rw [Quoting.step, if_pos hescape]
      exact h
    · by_cases hends : c = delimiter
      · rw [Quoting.step, if_neg hescape, if_pos hends]
        trivial
      · rw [Quoting.step, if_neg hescape, if_neg hends]
        exact h

theorem delimited_run (cs : List Char) : Delimited (Quoting.bare.run cs) := by
  have hrun (quoting : Quoting) (h : Delimited quoting) : Delimited (quoting.run cs) := by
    induction cs generalizing quoting with
    | nil => exact h
    | cons c rest ih => exact ih _ (delimited_step h c)
  exact hrun .bare trivial

/-- No character but a quote ends a literal. -/
theorem eq_bare_of_step {quoting : Quoting} (hquoting : Delimited quoting) {c : Char}
    (hc : ¬(c = '"' ∨ c = '\'')) (hends : quoting.step c = .bare) : quoting = .bare := by
  match quoting with
  | .bare => rfl
  | .inside delimiter true => cases hends
  | .inside delimiter false =>
    by_cases hescape : c = '\\'
    · rw [Quoting.step, if_pos hescape] at hends
      cases hends
    · by_cases hdelimiter : c = delimiter
      · exact absurd hquoting (hdelimiter ▸ hc)
      · rw [Quoting.step, if_neg hescape, if_neg hdelimiter] at hends
        cases hends

/-- Sealed code does not end with a character of a mark: that would stand outside of the literals. -/
private theorem notMem_alphabet_of_getLast? {quoting : Quoting} (hquoting : Delimited quoting)
    {cs : List Char} (h : Sealed quoting cs) {c : Char} (hc : c ∈ cs.getLast?) :
    c ∉ Marker.alphabet := by
  induction cs generalizing quoting with
  | nil => cases hc
  | cons d rest ih =>
    cases rest with
    | cons e rest => exact ih (delimited_step hquoting d) h.2 (by simpa using hc)
    | nil =>
      obtain rfl : d = c := by simpa using hc
      intro hmem
      have hno : ¬(d = '"' ∨ d = '\'') := fun hquote ↦ quote_notMem_alphabet hquote hmem
      exact h.1 (eq_bare_of_step hquoting hno h.2) hmem

end Sealed

end Text

namespace Piece

/-! ### Pieces of a text in parts -/

theorem mem_alphabet_of_mark? {c d : Char} {piece : Piece} (h : mark? c d = some piece) :
    c ∈ Marker.alphabet ∧ d ∈ Marker.alphabet := by
  unfold mark? at h
  split at h <;> simp_all [Marker.alphabet]

theorem split_opener (m : Marker) (rest : List Char) :
    split (m.opener ++ rest) = opens m :: split rest := by
  cases m <;> rfl

theorem split_closer (m : Marker) (rest : List Char) :
    split (m.closer ++ rest) = closes m :: split rest := by
  cases m <;> rfl

@[simp] theorem charsOf_split (cs : List Char) : charsOf (split cs) = cs := flatMap_chars_split cs

/-- Whether no lone character forms a mark with what follows it. -/
def Apart : List Piece → Prop
  | [] => True
  | .char c :: rest => (∀ d ∈ (charsOf rest).head?, mark? c d = none) ∧ Apart rest
  | _ :: rest => Apart rest

namespace Apart

variable {a b : List Piece} {c : Char}

theorem cons_of_mark? {c d : Char} {piece : Piece} (hmark : mark? c d = some piece)
    (h : Apart a) : Apart (piece :: a) := by
  unfold mark? at hmark
  split at hmark <;> cases hmark <;> exact h

theorem append (ha : Apart a) (hb : Apart b)
    (h : ∀ init c, a = init ++ [.char c] → ∀ d ∈ (charsOf b).head?, mark? c d = none) :
    Apart (a ++ b) := by
  induction a with
  | nil => exact hb
  | cons piece a ih =>
    have hrest (init : List Piece) (c : Char) (hinit : a = init ++ [.char c]) :
        ∀ d ∈ (charsOf b).head?, mark? c d = none :=
      h (piece :: init) c (by rw [hinit, List.cons_append])
    cases piece with
    | opens m => exact ih ha hrest
    | closes m => exact ih ha hrest
    | char c =>
      refine ⟨?_, ih ha.2 hrest⟩
      cases a with
      | nil => exact h [] c rfl
      | cons second a =>
        obtain ⟨e, more, hchars⟩ :=
          List.exists_cons_of_ne_nil (charsOf_ne_nil (List.cons_ne_nil second a))
        have hfirst := ha.1
        rw [hchars] at hfirst
        rw [List.append_eq, charsOf_append, hchars]
        exact hfirst

theorem of_append (h : Apart (a ++ b)) : Apart a ∧ Apart b := by
  induction a with
  | nil => exact ⟨trivial, h⟩
  | cons piece a ih =>
    cases piece with
    | opens m => exact ih h
    | closes m => exact ih h
    | char c =>
      obtain ⟨hfirst, hrest⟩ := h
      refine ⟨⟨?_, (ih hrest).1⟩, (ih hrest).2⟩
      intro d hd
      apply hfirst d
      rw [List.append_eq, charsOf_append, List.head?_append, hd]
      rfl

end Apart

/-- A cut text has no mark across its pieces. -/
theorem apart_split (cs : List Char) : Apart (split cs) := by
  fun_induction split cs with
  | case1 => trivial
  | case2 c => exact ⟨fun _ hd ↦ (by cases hd), trivial⟩
  | case3 c d rest piece hmark ih => exact ih.cons_of_mark? hmark
  | case4 c d rest hmark ih =>
    refine ⟨?_, ih⟩
    intro e he
    rw [charsOf_split] at he
    cases he
    exact hmark

/-- Pieces that no mark lies across are what their text is cut into. -/
theorem Apart.split_charsOf {pieces : List Piece} (h : Apart pieces) :
    split (charsOf pieces) = pieces := by
  induction pieces with
  | nil => rfl
  | cons piece rest ih =>
    cases piece with
    | opens m => exact (split_opener m _).trans (congrArg _ (ih h))
    | closes m => exact (split_closer m _).trans (congrArg _ (ih h))
    | char c =>
      have hrest := ih h.2
      cases hchars : charsOf rest with
      | nil =>
        rw [hchars] at hrest
        rw [charsOf_cons, hchars, ← hrest]
        rfl
      | cons d more =>
        have hnone : mark? c d = none := h.1 d (by rw [hchars]; rfl)
        rw [charsOf_cons, hchars]
        change split (c :: d :: more) = _
        rw [split, hnone, ← hchars, hrest]

/-- A text in two parts is cut into the pieces of both, unless a lone character at the end of the
first part forms a mark with the beginning of the second one. -/
theorem split_append_of_lone {a b : List Char}
    (h : ∀ init c, split a = init ++ [.char c] → ∀ d ∈ b.head?, mark? c d = none) :
    split (a ++ b) = split a ++ split b := by
  have hapart : Apart (split a ++ split b) := by
    refine (apart_split a).append (apart_split b) ?_
    rw [charsOf_split]
    exact h
  have hsplit := hapart.split_charsOf
  rwa [charsOf_append, charsOf_split, charsOf_split] at hsplit

/-- A text in two parts is cut into the pieces of both, unless a mark lies across them. -/
theorem split_append {a b : List Char}
    (h : ∀ c ∈ a.getLast?, ∀ d ∈ b.head?, mark? c d = none) : split (a ++ b) = split a ++ split b := by
  apply split_append_of_lone
  intro init c hinit
  apply h
  have hchars : a = charsOf init ++ [c] := by
    rw [← charsOf_split a, hinit, charsOf_append]
    rfl
  rw [hchars, List.getLast?_concat]
  rfl

theorem opener_isInfix_of_mem_split {m : Marker} {cs : List Char} (h : opens m ∈ split cs) :
    m.opener <:+: cs := by
  obtain ⟨before, after, hsplit⟩ := List.append_of_mem h
  refine ⟨charsOf before, charsOf after, ?_⟩
  rw [← charsOf_split cs, hsplit, charsOf_append, charsOf_cons, ← List.append_assoc]
  rfl

end Piece

namespace Text.Sealed

/-! ### Sealed code in its marker -/

/-- No piece of sealed code ends its marker. -/
theorem encloses (isOutput : Bool) {quoting : Quoting} {cs : List Char} (h : Sealed quoting cs) :
    Segment.Encloses isOutput quoting (Piece.split cs) := by
  fun_induction Piece.split cs generalizing quoting with
  | case1 => trivial
  | case2 c => exact ⟨fun hends ↦ (by cases hends.1), trivial⟩
  | case3 c d rest piece hmark ih =>
    refine ⟨fun hends ↦ h.1 hends.2 (Piece.mem_alphabet_of_mark? hmark).1, ?_⟩
    rw [Piece.chars_of_mark? hmark]
    exact ih h.2.2
  | case4 c d rest hmark ih => exact ⟨fun hends ↦ (by cases hends.1), ih h.2⟩

/-- The pieces of sealed code in its marker. -/
theorem split_around (isOutput : Bool) {cs : List Char} (h : Sealed .bare cs) (rest : List Char) :
    Piece.split ((Token.markerOf isOutput).around cs ++ rest) =
      (Segment.code isOutput (Piece.split cs)).pieces ++ Piece.split rest := by
  have hlast : ∀ c ∈ cs.getLast?,
      ∀ d ∈ ((Token.markerOf isOutput).closer ++ rest).head?, Piece.mark? c d = none := by
    intro c hc d hd
    have hbare : Delimited .bare := trivial
    have hplain := notMem_alphabet_of_getLast? hbare h hc
    cases hmark : Piece.mark? c d with
    | none => rfl
    | some piece => exact absurd (Piece.mem_alphabet_of_mark? hmark).1 hplain
  rw [Marker.around, List.append_assoc, List.append_assoc, Piece.split_opener,
    Piece.split_append hlast, Piece.split_closer, Segment.pieces, List.cons_append,
    List.append_assoc, List.singleton_append]

theorem wellFormed (isOutput : Bool) {cs : List Char} (h : Sealed .bare cs) :
    (Segment.code isOutput (Piece.split cs)).WellFormed := by
  refine ⟨h.encloses isOutput, ?_⟩
  rw [Piece.charsOf_split]
  exact h.run_eq

end Text.Sealed

/-! ### Lexemes -/

namespace Decimal

/-- The characters of numbers. -/
private def isNumeric (c : Char) : Bool := c.isDigit || c ∈ ['-', '+', '.', 'e', 'E']

private theorem isNumeric_of_isDigit {c : Char} (h : c.isDigit = true) : isNumeric c = true := by
  rw [isNumeric, h, Bool.true_or]

private theorem isNumeric_of_mem_takeWhile {c : Char} {cs : List Char}
    (h : c ∈ cs.takeWhile Char.isDigit) : isNumeric c = true :=
  isNumeric_of_isDigit (List.mem_takeWhile_imp h)

private theorem isNumeric_of_mem_takeFraction {cs : List Char} :
    ∀ c ∈ pointed (takeFraction cs).1, isNumeric c = true := by
  unfold takeFraction
  split
  · next c rest =>
    split
    · next hc =>
      intro d hd
      simp only [pointed, List.mem_cons] at hd
      rcases hd with rfl | rfl | hd
      · decide
      · exact isNumeric_of_isDigit hc
      · exact isNumeric_of_mem_takeWhile hd
    · intro d hd
      cases hd
  · intro d hd
    cases hd

private theorem isNumeric_of_mem_takePower {cs : List Char} :
    ∀ c ∈ (takePower cs).1, isNumeric c = true := by
  have hletter {c : Char} (h : c = 'e' ∨ c = 'E') : isNumeric c = true := by
    rcases h with rfl | rfl <;> decide
  have hsign {c : Char} (h : c = '+' ∨ c = '-') : isNumeric c = true := by
    rcases h with rfl | rfl <;> decide
  unfold takePower
  split
  · next e sign c rest =>
    split
    · next h =>
      intro d hd
      simp only [List.mem_cons] at hd
      rcases hd with rfl | rfl | rfl | hd
      · exact hletter h.1
      · exact hsign h.2.1
      · exact isNumeric_of_isDigit h.2.2
      · exact isNumeric_of_mem_takeWhile hd
    · split
      · next h =>
        intro d hd
        simp only [List.mem_cons] at hd
        rcases hd with rfl | rfl | hd
        · exact hletter h.1
        · exact isNumeric_of_isDigit h.2
        · exact isNumeric_of_mem_takeWhile hd
      · intro d hd
        cases hd
  · next e c =>
    split
    · next h =>
      intro d hd
      simp only [List.mem_cons, List.not_mem_nil, or_false] at hd
      rcases hd with rfl | rfl
      · exact hletter h.1
      · exact isNumeric_of_isDigit h.2
    · intro d hd
      cases hd
  · intro d hd
    cases hd

private theorem isNumeric_of_mem_text {negative : Bool} {cs : List Char} :
    ∀ c ∈ (takeUnsigned negative cs).1.text, isNumeric c = true := by
  intro c hc
  simp only [takeUnsigned, Literal.text, List.mem_append] at hc
  rcases hc with hc | hc | hc | hc
  · cases negative with
    | false => cases hc
    | true =>
      obtain rfl := List.mem_singleton.mp hc
      decide
  · exact isNumeric_of_mem_takeWhile hc
  · exact isNumeric_of_mem_takeFraction c hc
  · exact isNumeric_of_mem_takePower c hc

/-- The characters of a number literal are plain, and none is a bracket. -/
theorem isPlain_of_takeLiteral? {cs rest : List Char} {l : Literal}
    (h : takeLiteral? cs = some (l, rest)) :
    ∀ c ∈ l.text, Text.IsPlain c ∧ c ∉ Text.brackets := by
  have hunsigned : ∃ negative digits, l = (takeUnsigned negative digits).1 := by
    unfold takeLiteral? at h
    split at h
    · split at h
      · exact ⟨_, _, (congrArg Prod.fst (Option.some.inj h)).symm⟩
      · cases h
    · split at h
      · exact ⟨_, _, (congrArg Prod.fst (Option.some.inj h)).symm⟩
      · cases h
    · cases h
  obtain ⟨negative, digits, rfl⟩ := hunsigned
  intro c hc
  have hnumeric := isNumeric_of_mem_text c hc
  have hbrackets : Text.brackets.any isNumeric = false := by decide
  exact ⟨Text.isPlain_of (by decide) hnumeric,
    fun hmem ↦ List.any_eq_false.mp hbrackets c hmem hnumeric⟩

end Decimal

namespace Lexeme

/-- The body of a literal ends at its quote. -/
theorem eq_of_takeBody {delimiter : Char} (hdelimiter : delimiter ≠ '\\')
    {cs body after : List Char} (h : takeBody delimiter cs = .ok (body, after)) :
    cs = body ++ delimiter :: after ∧
      Text.Sealed (.inside delimiter false) (body ++ [delimiter]) := by
  fun_induction takeBody delimiter cs generalizing body after with
  | case1 => cases h
  | case2 => cases h
  | case3 => cases h
  | case4 c rest hc body after hbody ih =>
    cases h
    obtain ⟨hrest, hsealed⟩ := ih hbody
    rw [hrest]
    exact ⟨rfl, fun hbare ↦ (by cases hbare), fun hbare ↦ (by cases hbare), hsealed⟩
  | case5 => cases h
  | case6 rest =>
    cases h
    refine ⟨rfl, fun hbare ↦ (by cases hbare), ?_⟩
    rw [Text.Quoting.step, if_neg hdelimiter, if_pos rfl]
    rfl
  | case7 c rest hlast hescape hends body after hbody ih =>
    cases h
    obtain ⟨hrest, hsealed⟩ := ih hbody
    have hplain : c ≠ '\\' := by
      rintro rfl
      cases rest with
      | nil => exact hlast rfl rfl
      | cons d rest => exact hescape d rest rfl rfl
    rw [hrest]
    refine ⟨rfl, fun hbare ↦ (by cases hbare), ?_⟩
    rw [Text.Quoting.step, if_neg hplain, if_neg hends]
    exact hsealed
  | case8 => cases h

/-- What is taken is a word or a number, made of plain characters, or a string literal, or a sign. -/
theorem cases_of_take {c : Char} {rest after : List Char} {lexeme : Lexeme}
    (h : take c rest = .ok (lexeme, after)) :
    (∃ part, c :: rest = part ++ after ∧ (∀ d ∈ part, Text.IsPlain d ∧ d ∉ Text.brackets) ∧
      ((∃ s, lexeme = .word s) ∨ ∃ literal, lexeme = .number literal)) ∨
    (∃ body, (c = '"' ∨ c = '\'') ∧ takeBody c rest = .ok (body, after) ∧
      lexeme = .quoted c body) ∨
    sign? c = some lexeme ∧ rest = after := by
  unfold take at h
  split at h
  · next hstart =>
    cases h
    refine .inl ⟨c :: rest.takeWhile isWordPart, ?_, ?_, .inl ⟨_, rfl⟩⟩
    · rw [List.cons_append, List.takeWhile_append_dropWhile]
    · intro d hd
      have hpart : isWordPart d = true := by
        rcases List.mem_cons.mp hd with rfl | hd
        · rw [isWordPart, hstart, Bool.true_or]
        · exact List.mem_takeWhile_imp hd
      have hbrackets : Text.brackets.any isWordPart = false := by decide
      exact ⟨Text.isPlain_of (by decide) hpart,
        fun hmem ↦ List.any_eq_false.mp hbrackets d hmem hpart⟩
  · split at h
    · next hquote =>
      cases hbody : takeBody c rest with
      | error seen =>
        rw [hbody] at h
        cases h
      | ok found =>
        rw [hbody] at h
        cases h
        exact .inr (.inl ⟨found.1, hquote, rfl, rfl⟩)
    · cases hnumber : Decimal.takeLiteral? (c :: rest) with
      | some found =>
        rw [hnumber] at h
        cases h
        exact .inl ⟨found.1.text, (Decimal.text_append_of_takeLiteral? hnumber).symm,
          Decimal.isPlain_of_takeLiteral? hnumber, .inr ⟨_, rfl⟩⟩
      | none =>
        rw [hnumber] at h
        dsimp only at h
        cases hsign : sign? c with
        | none =>
          rw [hsign] at h
          cases h
        | some sign =>
          rw [hsign] at h
          cases h
          exact .inr (.inr ⟨rfl, rfl⟩)

theorem ne_escape_of_quote {c : Char} (h : c = '"' ∨ c = '\'') : c ≠ '\\' := by
  rcases h with rfl | rfl <;> decide

/-- A lexeme that is taken leaves the rest of the text, and what it takes is sealed. -/
private theorem exists_sealed_of_take {c : Char} {rest after : List Char} {lexeme : Lexeme}
    (h : take c rest = .ok (lexeme, after)) :
    ∃ part, c :: rest = part ++ after ∧ Text.Sealed .bare part := by
  rcases cases_of_take h with ⟨part, hpart, hplain, -⟩ | ⟨body, hquote, hbody, -⟩ | ⟨hsign, rfl⟩
  · exact ⟨part, hpart, Text.sealed_of_isPlain fun d hd ↦ (hplain d hd).1⟩
  · obtain ⟨hrest, hsealed⟩ := eq_of_takeBody (ne_escape_of_quote hquote) hbody
    refine ⟨c :: (body ++ [c]), by rw [hrest]; simp, ?_, ?_⟩
    · exact fun _ ↦ Text.quote_notMem_alphabet hquote
    · rw [Text.Quoting.step, if_pos hquote]
      exact hsealed
  · have hplain : Text.IsPlain c :=
      Text.isPlain_of (p := fun c ↦ (sign? c).isSome) (by decide) (by rw [hsign]; rfl)
    exact ⟨[c], rfl, hplain.sealed⟩

/-- A text made of lexemes is sealed. -/
theorem sealed_of_ofText {cs : List Char} {lexemes : List Lexeme} (h : ofText cs = .ok lexemes) :
    Text.Sealed .bare cs := by
  fun_induction ofText cs generalizing lexemes with
  | case1 => rfl
  | case2 c rest hspace ih =>
    exact (Text.isPlain_of (by decide) hspace).sealed.append (ih h)
  | case3 c rest hspace lexeme after htake ih =>
    obtain ⟨part, hpart, hsealed⟩ := exists_sealed_of_take htake
    cases hafter : ofText after with
    | error seen =>
      rw [hafter] at h
      cases h
    | ok more =>
      rw [hpart]
      exact hsealed.append (ih hafter)
  | case4 => cases h

end Lexeme

/-- The code of an expression is sealed. -/
theorem Expression.sealed_of_parse {code : String} {e : Expression} (h : parse code = .ok e) :
    Text.Sealed .bare code.toList := by
  unfold parse lexemes at h
  cases hlexemes : Lexeme.ofText code.toList with
  | error seen =>
    rw [hlexemes] at h
    cases h
  | ok found => exact Lexeme.sealed_of_ofText hlexemes

/-- No expression is written with nothing. -/
theorem Expression.toList_ne_of_parse {code : String} {e : Expression} (h : parse code = .ok e) :
    code.toList ≠ [] := by
  intro hempty
  obtain rfl : code = "" := String.toList_eq_nil_iff.mp hempty
  have hfails : (parse "").isOk = false := by decide +kernel
  rw [h] at hfails
  cases hfails

end Stencil
