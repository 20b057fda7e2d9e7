import Stencil.Proofs.Derivations
import Stencil.Proofs.Sealed

/-!
# Spelling a text as a literal

A text is spelled between quotes with a backslash before every backslash and before the quote.
Between double quotes every text is read back from its spelling. Between single quotes this holds
exactly of the texts in which no double quote follows a backslash: before a single-quoted body is put
into double quotes it loses every backslash that stands before a double quote, one that is escaped
itself included.
-/

namespace Stencil

namespace Escape

/-- Put a backslash before every character of a class. -/
def slash (isEscaped : Char → Prop) [DecidablePred isEscaped] (cs : List Char) : List Char :=
  cs.flatMap fun c ↦ if isEscaped c then ['\\', c] else [c]

section Slash

variable {isEscaped : Char → Prop} [DecidablePred isEscaped] {c : Char} {cs : List Char}

@[simp] theorem slash_nil : slash isEscaped [] = [] := rfl

theorem slash_cons_of_escaped (h : isEscaped c) (cs : List Char) :
    slash isEscaped (c :: cs) = '\\' :: c :: slash isEscaped cs := by
  rw [slash, List.flatMap_cons, if_pos h]
  rfl

theorem slash_cons_of_plain (h : ¬ isEscaped c) (cs : List Char) :
    slash isEscaped (c :: cs) = c :: slash isEscaped cs := by
  rw [slash, List.flatMap_cons, if_neg h]
  rfl

/-- Where this brings in no backslash, it changes nothing. -/
theorem slash_eq_self (h : '\\' ∉ slash isEscaped cs) : slash isEscaped cs = cs := by
  induction cs with
  | nil => rfl
  | cons c cs ih =>
    by_cases hescaped : isEscaped c
    · rw [slash_cons_of_escaped hescaped] at h
      exact absurd List.mem_cons_self h
    · rw [slash_cons_of_plain hescaped] at h ⊢
      rw [ih (fun hmem ↦ h (List.mem_cons_of_mem c hmem))]

end Slash

/-- Put a backslash before every backslash and before every occurrence of a character. -/
def protect (q : Char) (cs : List Char) : List Char :=
  cs.flatMap fun c ↦ if c = '\\' ∨ c = q then ['\\', c] else [c]

variable {q c : Char} {cs : List Char}

theorem protect_eq_slash (q : Char) (cs : List Char) :
    protect q cs = slash (fun c ↦ c = '\\' ∨ c = q) cs := rfl

@[simp] theorem protect_nil : protect q [] = [] := rfl

theorem protect_cons_of_escaped (h : c = '\\' ∨ c = q) (cs : List Char) :
    protect q (c :: cs) = '\\' :: c :: protect q cs :=
  slash_cons_of_escaped h cs

theorem protect_cons_of_plain (hslash : c ≠ '\\') (hquote : c ≠ q) (cs : List Char) :
    protect q (c :: cs) = c :: protect q cs :=
  slash_cons_of_plain (not_or.mpr ⟨hslash, hquote⟩) cs

/-- No protected text begins with the quote. -/
theorem head?_protect_ne (hq : q ≠ '\\') (cs : List Char) : (protect q cs).head? ≠ some q := by
  cases cs with
  | nil => exact nofun
  | cons c cs =>
    by_cases hescaped : c = '\\' ∨ c = q
    · rw [protect_cons_of_escaped hescaped]
      exact fun h ↦ hq (Option.some.inj h).symm
    · obtain ⟨hslash, hquote⟩ := not_or.mp hescaped
      rw [protect_cons_of_plain hslash hquote]
      exact fun h ↦ hquote (Option.some.inj h)

/-- Doubling the backslashes leaves what a text begins with. -/
theorem head?_protect_slash (cs : List Char) : (protect '\\' cs).head? = cs.head? := by
  cases cs with
  | nil => rfl
  | cons c cs =>
    by_cases hslash : c = '\\'
    · rw [protect_cons_of_escaped (.inl hslash), hslash]
      rfl
    · rw [protect_cons_of_plain hslash hslash]
      rfl

/-! ### Between double quotes -/

theorem map_cons_eq_ok {ε : Type} {x : Except ε (List Char)} :
    x.map (c :: ·) = .ok (c :: cs) ↔ x = .ok cs := by
  simp [Computation.map_eq_ok]

/-- An escaped backslash or double quote stands for itself. -/
theorem resolve_double_escaped (h : c = '\\' ∨ c = '"') (i : Nat) (cs : List Char) :
    resolve .double i ('\\' :: c :: cs) = (resolve .double (i + 2) cs).map (c :: ·) := by
  obtain rfl | rfl := h <;> rfl

/-- Any other character but a backslash or a double quote stands for itself. -/
theorem resolve_double_plain (hslash : c ≠ '\\') (hquote : c ≠ '"') (i : Nat) (cs : List Char) :
    resolve .double i (c :: cs) = (resolve .double (i + 1) cs).map (c :: ·) := by
  rw [resolve, if_neg hquote] <;> simp [hslash]

/-- A closing quote at the very end ends the text. -/
theorem resolve_double_end (i : Nat) : resolve .double i ['"'] = .ok [] := rfl

/-- The escapes of a protected text are resolved to the text. -/
theorem resolve_double_protect (i : Nat) (cs : List Char) :
    resolve .double i (protect '"' cs ++ ['"']) = .ok cs := by
  induction cs generalizing i with
  | nil => exact resolve_double_end i
  | cons c cs ih =>
    by_cases hescaped : c = '\\' ∨ c = '"'
    · rw [protect_cons_of_escaped hescaped, List.cons_append, List.cons_append,
        resolve_double_escaped hescaped, ih, Except.map]
    · obtain ⟨hslash, hquote⟩ := not_or.mp hescaped
      rw [protect_cons_of_plain hslash hquote, List.cons_append,
        resolve_double_plain hslash hquote, ih, Except.map]

/-! ### Between single quotes -/

theorem unescape_cons (h : c = '\\' → cs.head? ≠ some q) :
    unescape q (c :: cs) = c :: unescape q cs := by
  cases cs with
  | nil => rfl
  | cons d cs =>
    rw [unescape_cons_cons, if_neg fun ⟨hslash, hquote⟩ ↦ h hslash (congrArg some hquote)]

theorem unescape_escaped (q : Char) (cs : List Char) :
    unescape q ('\\' :: q :: cs) = q :: unescape q cs := by
  rw [unescape_cons_cons, if_pos ⟨rfl, rfl⟩]

theorem escapeQuotes_quote (cs : List Char) :
    escapeQuotes ('"' :: cs) = '\\' :: '"' :: escapeQuotes cs := rfl

theorem escapeQuotes_cons (h : c ≠ '"') (cs : List Char) :
    escapeQuotes (c :: cs) = c :: escapeQuotes cs := by
  rw [escapeQuotes, List.flatMap_cons, if_neg h]
  rfl

/-- Without the backslashes of its quotes, a protected text is the text with backslashes doubled. -/
theorem unescape_protect (hq : q ≠ '\\') (cs : List Char) :
    unescape q (protect q cs) = protect '\\' cs := by
  induction cs with
  | nil => rfl
  | cons c cs ih =>
    by_cases hslash : c = '\\'
    · subst hslash
      rw [protect_cons_of_escaped (.inl rfl), protect_cons_of_escaped (.inl rfl),
        unescape_cons (fun _ h ↦ hq (by cases h; rfl)),
        unescape_cons (fun _ ↦ head?_protect_ne hq cs), ih]
    by_cases hquote : c = q
    · subst hquote
      rw [protect_cons_of_escaped (.inr rfl), unescape_escaped,
        protect_cons_of_plain hslash hslash, ih]
    · rw [protect_cons_of_plain hslash hquote, protect_cons_of_plain hslash hslash,
        unescape_cons (fun h ↦ absurd h hslash), ih]

/-- Outside of double quotes a character that is no quote stands for itself. -/
theorem resolve_plain {mode : Mode} (hmode : mode = .bare ∨ mode = .single) (hsingle : c ≠ '\'')
    (hdouble : c ≠ '"') (i : Nat) (cs : List Char) :
    resolve mode i (c :: cs) = (resolve mode (i + 1) cs).map (c :: ·) := by
  obtain rfl | rfl := hmode
  · rw [resolve_bare_cons, if_neg hsingle, if_neg hdouble]
  · rw [resolve_single_cons, if_neg hsingle]

/-- Outside of double quotes, where every double quote but the one at the very end follows a
backslash, only that one can come first in the outcome. -/
theorem eq_nil_of_resolve_escapeQuotes {mode : Mode} (hmode : mode = .bare ∨ mode = .single)
    {i : Nat} {rest : List Char}
    (h : resolve mode i (escapeQuotes cs ++ ['"']) = .ok ('"' :: rest)) : rest = [] := by
  induction cs generalizing mode i with
  | nil =>
    obtain rfl | rfl := hmode
    · cases h
    · cases h
      rfl
  | cons c cs ih =>
    by_cases hdouble : c = '"'
    · rw [hdouble, escapeQuotes_quote, List.cons_append,
        resolve_plain hmode (by decide) (by decide)] at h
      obtain ⟨_, -, heq⟩ := Computation.map_eq_ok.mp h
      cases heq
    rw [escapeQuotes_cons hdouble, List.cons_append] at h
    by_cases hsingle : c = '\''
    · obtain rfl | rfl := hmode
      · rw [resolve_bare_cons, if_pos hsingle] at h
        exact ih (.inr rfl) h
      · rw [resolve_single_cons, if_pos hsingle] at h
        exact ih (.inl rfl) h
    · rw [resolve_plain hmode hsingle hdouble] at h
      obtain ⟨_, -, heq⟩ := Computation.map_eq_ok.mp h
      exact absurd (List.cons.inj heq).1 hdouble

/-- The backslash of a text before one of its double quotes is resolved, and then the quote ends the
literal too soon: what follows is read outside of quotes and is not the rest of the text. -/
theorem resolve_early_end_ne (i : Nat) (cs : List Char) :
    resolve .double i
        ('\\' :: '\\' :: '"' :: (escapeQuotes (unescape '"' (protect '\\' cs)) ++ ['"'])) ≠
      .ok ('\\' :: '"' :: cs) := by
  intro h
  rw [resolve_double_escaped (.inl rfl), Computation.map_eq_ok] at h
  obtain ⟨_, h, heq⟩ := h
  rw [(List.cons.inj heq).2] at h
  change resolve .bare (i + 3) _ = _ at h
  have hnil := eq_nil_of_resolve_escapeQuotes (.inl rfl) h
  rw [hnil] at h
  cases h

/-- A body in single quotes, put into double quotes, is resolved to the text that it protects exactly
if no double quote follows a backslash in the text. -/
theorem resolve_requoted_iff (i : Nat) (cs : List Char) :
    resolve .double i (escapeQuotes (unescape '"' (protect '\\' cs)) ++ ['"']) = .ok cs ↔
      ¬ ['\\', '"'] <:+: cs := by
  induction cs generalizing i with
  | nil => simp [unescape, escapeQuotes, resolve_double_end]
  | cons c cs ih =>
    by_cases hslash : c = '\\'
    · subst hslash
      rw [protect_cons_of_escaped (.inl rfl), unescape_cons (fun _ h ↦ by cases h),
        escapeQuotes_cons (by decide)]
      by_cases hnext : cs.head? = some '"'
      · obtain ⟨cs, rfl⟩ := List.head?_eq_some_iff.mp hnext
        rw [protect_cons_of_plain (by decide) (by decide), unescape_escaped, escapeQuotes_quote]
        exact iff_of_false (resolve_early_end_ne i cs)
          (not_not_intro (List.IsPrefix.isInfix ⟨cs, rfl⟩))
      · have hfree : ¬ ['\\', '"'] <+: '\\' :: cs := by
          rintro ⟨rest, heq⟩
          exact hnext (by rw [← (List.cons.inj heq).2]; rfl)
        rw [unescape_cons (fun _ ↦ by rwa [head?_protect_slash]), escapeQuotes_cons (by decide),
          List.cons_append, List.cons_append, resolve_double_escaped (.inl rfl), map_cons_eq_ok, ih,
          List.infix_cons_iff, or_iff_right hfree]
    have hfree : ¬ ['\\', '"'] <+: c :: cs := fun ⟨_, heq⟩ ↦ hslash (List.cons.inj heq).1.symm
    rw [protect_cons_of_plain hslash hslash, unescape_cons (fun h ↦ absurd h hslash),
      List.infix_cons_iff, or_iff_right hfree]
    by_cases hdouble : c = '"'
    · rw [hdouble, escapeQuotes_quote, List.cons_append, List.cons_append,
        resolve_double_escaped (.inr rfl), map_cons_eq_ok, ih]
    · rw [escapeQuotes_cons hdouble, List.cons_append, resolve_double_plain hslash hdouble,
        map_cons_eq_ok, ih]

/-! ### What the literals denote -/

/-- A body with a backslash denotes what the reader of double-quoted text makes of it. -/
theorem denote_eq_ok_iff {body text : List Char} (h : '\\' ∈ body) :
    denote q body = .ok text ↔ resolve .bare 0 (requote q body) = .ok text := by
  unfold denote
  rw [if_neg (not_not_intro h)]
  cases hresolved : resolve .bare 0 (requote q body) with
  | ok found => simp [hresolved]
  | error e => simp [hresolved]

theorem denote_protect_double (cs : List Char) : denote '"' (protect '"' cs) = .ok cs := by
  by_cases hslash : '\\' ∈ protect '"' cs
  · rw [denote_eq_ok_iff hslash]
    exact resolve_double_protect 1 cs
  · rw [denote, if_pos hslash, protect_eq_slash, slash_eq_self hslash]

theorem denote_protect_single_iff (cs : List Char) :
    denote '\'' (protect '\'' cs) = .ok cs ↔ ¬ ['\\', '"'] <:+: cs := by
  by_cases hslash : '\\' ∈ protect '\'' cs
  · rw [denote_eq_ok_iff hslash, requote, if_neg (by decide), unescape_protect (by decide)]
    exact resolve_requoted_iff 1 cs
  · have heq : protect '\'' cs = cs := slash_eq_self hslash
    rw [denote, if_pos hslash, heq]
    rw [heq] at hslash
    exact iff_of_true rfl fun h ↦ hslash (h.subset List.mem_cons_self)

end Escape

/-! ### Reading the literals -/

namespace Lexeme

variable {q : Char}

/-- The body of a literal ends where a text does that was put there with backslashes before the
characters of a class, among them the backslash and the quote and not the line feed. -/
theorem takeBody_slash {isEscaped : Char → Prop} [DecidablePred isEscaped]
    (hslash : isEscaped '\\') (hquote : isEscaped q) (hline : ¬ isEscaped '\n') (hq : q ≠ '\\')
    (cs rest : List Char) :
    takeBody q (Escape.slash isEscaped cs ++ q :: rest) =
      .ok (Escape.slash isEscaped cs, rest) := by
  induction cs with
  | nil =>
    rw [Escape.slash_nil, List.nil_append, takeBody, if_pos rfl] <;> simp [hq]
  | cons c cs ih =>
    by_cases hescaped : isEscaped c
    · have hc : c ≠ '\n' := fun h ↦ hline (h ▸ hescaped)
      rw [Escape.slash_cons_of_escaped hescaped, List.cons_append, List.cons_append, takeBody,
        if_neg hc, ih]
    · have hplain : c ≠ '\\' := fun h ↦ hescaped (h ▸ hslash)
      have hother : c ≠ q := fun h ↦ hescaped (h ▸ hquote)
      rw [Escape.slash_cons_of_plain hescaped, List.cons_append, takeBody, if_neg hother, ih] <;>
        simp [hplain]

/-- The body of a literal ends where the protected text does. -/
theorem takeBody_protect (hq : q = '"' ∨ q = '\'') (cs rest : List Char) :
    takeBody q (Escape.protect q cs ++ q :: rest) = .ok (Escape.protect q cs, rest) := by
  have hline : ¬('\n' = '\\' ∨ '\n' = q) := by obtain rfl | rfl := hq <;> decide
  exact takeBody_slash (.inl rfl) (.inr rfl) hline (ne_escape_of_quote hq) cs rest

/-- A literal is one lexeme, and reading goes on after it. -/
theorem ofText_quoted (hq : q = '"' ∨ q = '\'') {body rest : List Char}
    (h : takeBody q (body ++ q :: rest) = .ok (body, rest)) :
    ofText (q :: (body ++ q :: rest)) = (ofText rest).map (.quoted q body :: ·) := by
  have hspace : isSpace q = false := by obtain rfl | rfl := hq <;> rfl
  have hword : isWordStart q = false := by obtain rfl | rfl := hq <;> rfl
  have htake : take q (body ++ q :: rest) = .ok (.quoted q body, rest) := by
    rw [take, hword, if_neg (by decide), if_pos hq, h]
  rw [ofText, hspace, if_neg (by decide)]
  split
  · next lexeme after heq =>
    rw [htake] at heq
    cases heq
    rfl
  · next seen heq =>
    rw [htake] at heq
    cases heq

end Lexeme

namespace Expression

/-- A text between quotes, with a backslash before every backslash and before the quote. -/
def spelled (q : Char) (text : String) : String :=
  String.ofList (q :: Escape.protect q text.toList ++ [q])

/-- A string literal alone is an expression without filters. -/
theorem ofLexemes_quoted (delimiter : Char) (body : List Char) :
    ofLexemes [.quoted delimiter body] =
      (stringValue delimiter body).map fun v ↦ ⟨.literal v, []⟩ := by
  rw [ofLexemes, value]
  cases stringValue delimiter body with
  | error fault => rfl
  | ok v => simp [Except.map, calls]

section Quoted

variable {q : Char} {body : List Char}

/-- A body between quotes, which ends where its quote comes, is a literal without filters for what the
body denotes. -/
theorem parse_quoted_eq (hq : q = '"' ∨ q = '\'')
    (h : Lexeme.takeBody q (body ++ [q]) = .ok (body, [])) :
    parse (String.ofList (q :: body ++ [q])) =
      (stringValue q body).map fun v ↦ ⟨.literal v, []⟩ := by
  rw [parse, lexemes, String.toList_ofList, List.cons_append, Lexeme.ofText_quoted hq h,
    Lexeme.ofText]
  exact ofLexemes_quoted q body

theorem parse_quoted_eq_ok (hq : q = '"' ∨ q = '\'')
    (h : Lexeme.takeBody q (body ++ [q]) = .ok (body, [])) (text : String) :
    parse (String.ofList (q :: body ++ [q])) = .ok ⟨.literal (.string text), []⟩ ↔
      Escape.denote q body = .ok text.toList := by
  rw [parse_quoted_eq hq h, Computation.map_eq_ok]
  constructor
  · rintro ⟨v, hv, heq⟩
    obtain ⟨found, hfound, rfl⟩ := stringValue_eq_ok.mp hv
    cases heq
    rw [hfound, String.toList_ofList]
  · intro hdenote
    exact ⟨_, stringValue_eq_ok.mpr ⟨_, hdenote, rfl⟩, by rw [String.ofList_toList]⟩

end Quoted

/-- A spelled text is a literal without filters, for what its body denotes. -/
theorem parse_spelled_eq {q : Char} (hq : q = '"' ∨ q = '\'') (text : String) :
    parse (spelled q text) =
      (stringValue q (Escape.protect q text.toList)).map fun v ↦ ⟨.literal v, []⟩ :=
  parse_quoted_eq hq (Lexeme.takeBody_protect hq text.toList [])

theorem parse_spelled_eq_ok {q : Char} (hq : q = '"' ∨ q = '\'') (text : String) :
    parse (spelled q text) = .ok ⟨.literal (.string text), []⟩ ↔
      Escape.denote q (Escape.protect q text.toList) = .ok text.toList :=
  parse_quoted_eq_ok hq (Lexeme.takeBody_protect hq text.toList []) text

/-- Between double quotes every text is read back from its spelling. Between single quotes a text is
read back exactly if no double quote follows a backslash in it. -/
theorem parse_spelled (text : String) :
    parse (spelled '"' text) = .ok ⟨.literal (.string text), []⟩ ∧
    (parse (spelled '\'' text) = .ok ⟨.literal (.string text), []⟩ ↔
      ¬ ['\\', '"'] <:+: text.toList) := by
  rw [parse_spelled_eq_ok (.inl rfl), parse_spelled_eq_ok (.inr rfl)]
  exact ⟨Escape.denote_protect_double _, Escape.denote_protect_single_iff _⟩

/-- A backslash with a double quote after it is read back from single quotes without the quote. -/
theorem parse_spelled_slashQuote_ne :
    spelled '\'' "\\\"" = "'\\\\\"'" ∧
    parse (spelled '\'' "\\\"") = .ok ⟨.literal (.string "\\"), []⟩ ∧
    parse (spelled '\'' "\\\"") ≠ .ok ⟨.literal (.string "\\\""), []⟩ := by
  have hread : parse (spelled '\'' "\\\"") = .ok ⟨.literal (.string "\\"), []⟩ := by
    rw [parse_spelled_eq (.inr rfl)]
    rfl
  refine ⟨by decide, hread, ?_⟩
  rw [hread]
  simp

end Expression

end Stencil
