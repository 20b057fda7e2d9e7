import Mathlib.Logic.Function.Defs
import Stencil.Proofs.Computation

/-!
# The grammar of expressions

Which lexemes make up which expressions, stated without a reader. A derivation is a tree with one
form per rule of the grammar; it has lexemes and stands for an expression. The readers accept exactly
the lexemes of derivations and answer what these stand for, and lexemes have one derivation at most.
-/

namespace Stencil

/-- The words that are values and no names. -/
inductive Keyword where
  | yes
  | no
  | null
  | none

namespace Keyword

/-- How a keyword is written. -/
def word : Keyword → String
  | yes => "true"
  | no => "false"
  | null => "null"
  | none => "none"

/-- What a keyword stands for. -/
def value : Keyword → Value
  | yes => .bool true
  | no => .bool false
  | null => .null
  | none => .null

theorem word_injective : Function.Injective word := by
  intro k l h
  cases k <;> cases l <;> first | rfl | exact absurd h (by decide)

end Keyword

mutual

/-- A derivation of a value. -/
inductive ValueTree where
  /-- A string literal that can be read. -/
  | quoted (delimiter : Char) (body text : List Char)
      (h : Escape.denote delimiter body = .ok text)
  /-- A number literal that is not too large. -/
  | number (literal : Decimal.Literal) (n : Number)
      (h : Number.ofLiteral? Number.isSigned literal = some n)
  | keyword (k : Keyword)
  /-- A name that is no keyword, with attributes and keys. -/
  | path (name : String) (h : ∀ k : Keyword, name ≠ k.word) (steps : StepsTree)

/-- A derivation of the attributes and keys that follow a name. -/
inductive StepsTree where
  | nil
  | member (name : String) (rest : StepsTree)
  | index (key : ValueTree) (rest : StepsTree)

end

mutual

/-- The lexemes of a value. -/
def ValueTree.lexemes : ValueTree → List Lexeme
  | .quoted delimiter body _ _ => [.quoted delimiter body]
  | .number literal _ _ => [.number literal]
  | .keyword k => [.word k.word]
  | .path name _ steps => .word name :: steps.lexemes

/-- The lexemes of attributes and keys. -/
def StepsTree.lexemes : StepsTree → List Lexeme
  | .nil => []
  | .member name rest => .dot :: .word name :: rest.lexemes
  | .index key rest => .bracketOpen :: (key.lexemes ++ .bracketClose :: rest.lexemes)

end

mutual

/-- The expression that a value stands for. -/
def ValueTree.expr : ValueTree → Expr
  | .quoted _ _ text _ => .literal (.string (String.ofList text))
  | .number _ n _ => .literal (.number n)
  | .keyword k => .literal k.value
  | .path name _ steps => steps.expr (.named name)

/-- The expression that attributes and keys stand for after a base. The first one belongs to the
base, and each other one to all that stands before it. -/
def StepsTree.expr (base : Expr) : StepsTree → Expr
  | .nil => base
  | .member name rest => rest.expr (.member base name)
  | .index key rest => rest.expr (.index base key.expr)

end

/-- A derivation of a filter call: a name, and, if it has parentheses, the arguments in them. -/
structure CallTree where
  name : String
  arguments : Option (List ValueTree)

namespace CallTree

/-- The lexemes of arguments, which commas separate. -/
def separated (arguments : List ValueTree) : List Lexeme :=
  [Lexeme.comma].intercalate (arguments.map ValueTree.lexemes)

/-- The lexemes of a filter call. -/
def lexemes (c : CallTree) : List Lexeme :=
  match c.arguments with
  | none => [.word c.name]
  | some arguments => .word c.name :: .parenOpen :: (separated arguments ++ [.parenClose])

/-- The filter call that a derivation stands for. -/
def call (c : CallTree) : FilterCall := ⟨c.name, (c.arguments.getD []).map ValueTree.expr⟩

end CallTree

theorem CallTree.separated_singleton (t : ValueTree) : separated [t] = t.lexemes :=
  List.intercalate_singleton

theorem CallTree.separated_cons {t : ValueTree} {ts : List ValueTree} (h : ts ≠ []) :
    separated (t :: ts) = t.lexemes ++ .comma :: separated ts := by
  obtain ⟨u, us, rfl⟩ := List.exists_cons_of_ne_nil h
  simp [separated, List.intercalate_cons_cons]

/-- A derivation of an expression: a value and filter calls, each after a bar. -/
structure ExpressionTree where
  base : ValueTree
  calls : List CallTree

/-- A derivation of a filter chain: filter calls with bars between them. -/
structure ChainTree where
  first : CallTree
  rest : List CallTree

/-- The lexemes of filter calls, each after a bar. -/
def CallTree.barred (calls : List CallTree) : List Lexeme :=
  calls.flatMap fun c ↦ .pipe :: c.lexemes

/-- The lexemes of an expression. -/
def ExpressionTree.lexemes (t : ExpressionTree) : List Lexeme :=
  t.base.lexemes ++ CallTree.barred t.calls

/-- The expression that a derivation stands for. -/
def ExpressionTree.expression (t : ExpressionTree) : Expression :=
  ⟨t.base.expr, t.calls.map CallTree.call⟩

/-- The lexemes of a filter chain. -/
def ChainTree.lexemes (t : ChainTree) : List Lexeme :=
  t.first.lexemes ++ CallTree.barred t.rest

/-- The filter calls that a derivation stands for. -/
def ChainTree.calls (t : ChainTree) : List FilterCall :=
  (t.first :: t.rest).map CallTree.call

/-! ### What each reader accepts -/

namespace Expression

/-- A reader answers something and leaves a rest. -/
def Leaves {α : Type} {p : List Lexeme → Prop}
    (x : Except SyntaxFault (α × { rest : List Lexeme // p rest })) (a : α)
    (rest : List Lexeme) : Prop :=
  ∃ h, x = .ok (a, ⟨rest, h⟩)

/-- Whether some lexemes do not go on with a path. -/
def EndsPath (ls : List Lexeme) : Prop := ∀ l ∈ ls.head?, l ≠ .dot ∧ l ≠ .bracketOpen

section Readers

variable {ls rest : List Lexeme} {base e : Expr}

theorem keyword?_eq_some {s : String} {v : Value} :
    keyword? s = some v ↔ ∃ k : Keyword, s = k.word ∧ v = k.value := by
  constructor
  · intro h
    unfold keyword? at h
    split at h
    · next hs => exact ⟨.yes, hs, (Option.some.inj h).symm⟩
    · split at h
      · next hs => exact ⟨.no, hs, (Option.some.inj h).symm⟩
      · split at h
        · next hs =>
          rcases hs with hs | hs
          · exact ⟨.null, hs, (Option.some.inj h).symm⟩
          · exact ⟨.none, hs, (Option.some.inj h).symm⟩
        · cases h
  · rintro ⟨k, rfl, rfl⟩
    cases k <;> rfl

theorem keyword?_eq_none {s : String} : keyword? s = none ↔ ∀ k : Keyword, s ≠ k.word := by
  rw [Option.eq_none_iff_forall_ne_some]
  constructor
  · intro h k hk
    exact h k.value (keyword?_eq_some.mpr ⟨k, hk, rfl⟩)
  · intro h v hv
    obtain ⟨k, hk, -⟩ := keyword?_eq_some.mp hv
    exact h k hk

theorem stringValue_eq_ok {delimiter : Char} {body : List Char} {v : Value} :
    stringValue delimiter body = .ok v ↔
      ∃ text, Escape.denote delimiter body = .ok text ∧ v = .string (String.ofList text) := by
  unfold stringValue
  cases Escape.denote delimiter body with
  | error message => simp
  | ok text => simp [eq_comm]

theorem numberValue_eq_ok {literal : Decimal.Literal} {v : Value} :
    numberValue literal = .ok v ↔
      ∃ n, Number.ofLiteral? Number.isSigned literal = some n ∧ v = .number n := by
  unfold numberValue
  cases Number.ofLiteral? Number.isSigned literal with
  | none => simp
  | some n => simp [eq_comm]

/-- A value is a literal, a keyword, or a path. -/
theorem value_leaves : Leaves (value ls) e rest ↔
    (∃ delimiter body text, ls = .quoted delimiter body :: rest ∧
      Escape.denote delimiter body = .ok text ∧ e = .literal (.string (String.ofList text))) ∨
    (∃ literal n, ls = .number literal :: rest ∧
      Number.ofLiteral? Number.isSigned literal = some n ∧ e = .literal (.number n)) ∨
    (∃ k : Keyword, ls = .word k.word :: rest ∧ e = .literal k.value) ∨
    (∃ name more, ls = .word name :: more ∧ (∀ k : Keyword, name ≠ k.word) ∧
      Leaves (path (.named name) more) e rest) := by
  constructor
  · rintro ⟨h, hx⟩
    unfold value at hx
    split at hx
    · cases hx
    · next delimiter body more =>
      obtain ⟨v, hv, hx⟩ := Computation.map_eq_ok.mp hx
      obtain ⟨text, htext, rfl⟩ := stringValue_eq_ok.mp hv
      cases hx
      exact .inl ⟨delimiter, body, text, rfl, htext, rfl⟩
    · next literal more =>
      obtain ⟨v, hv, hx⟩ := Computation.map_eq_ok.mp hx
      obtain ⟨n, hn, rfl⟩ := numberValue_eq_ok.mp hv
      cases hx
      exact .inr (.inl ⟨literal, n, rfl, hn, rfl⟩)
    · next s more =>
      split at hx
      · next v hv =>
        obtain ⟨k, rfl, rfl⟩ := keyword?_eq_some.mp hv
        cases hx
        exact .inr (.inr (.inl ⟨k, rfl, rfl⟩))
      · next hnone =>
        split at hx
        · next e' after hpath =>
          cases hx
          exact .inr (.inr (.inr ⟨s, more, rfl, keyword?_eq_none.mp hnone, after.2, hpath⟩))
        · cases hx
    · cases hx
  · rintro (⟨delimiter, body, text, rfl, htext, rfl⟩ | ⟨literal, n, rfl, hn, rfl⟩ | ⟨k, rfl, rfl⟩ |
      ⟨name, more, rfl, hname, h, hpath⟩)
    · rw [Leaves, value, stringValue_eq_ok.mpr ⟨text, htext, rfl⟩]
      exact ⟨_, rfl⟩
    · rw [Leaves, value, numberValue_eq_ok.mpr ⟨n, hn, rfl⟩]
      exact ⟨_, rfl⟩
    · rw [Leaves, value, keyword?_eq_some.mpr ⟨k, rfl, rfl⟩]
      exact ⟨_, rfl⟩
    · rw [Leaves, value, keyword?_eq_none.mpr hname]
      dsimp only
      rw [hpath]
      exact ⟨_, rfl⟩

/-- A path goes on with an attribute or a key, or it ends. -/
theorem path_leaves : Leaves (path base ls) e rest ↔
    (∃ name more, ls = .dot :: .word name :: more ∧
      Leaves (path (.member base name) more) e rest) ∨
    (∃ inner key more, ls = .bracketOpen :: inner ∧
      Leaves (value inner) key (.bracketClose :: more) ∧
      Leaves (path (.index base key) more) e rest) ∨
    (EndsPath ls ∧ e = base ∧ rest = ls) := by
  constructor
  · rintro ⟨h, hx⟩
    unfold path at hx
    split at hx
    · next name more =>
      split at hx
      · next e' after hpath =>
        cases hx
        exact .inl ⟨name, more, rfl, after.2, hpath⟩
      · cases hx
    · cases hx
    · cases hx
    · next inner =>
      split at hx
      · cases hx
      · cases hx
      · next key more hkey hvalue =>
        split at hx
        · next e' after hpath =>
          cases hx
          exact .inr (.inl ⟨inner, key, more, rfl, ⟨hkey, hvalue⟩, after.2, hpath⟩)
        · cases hx
      · cases hx
    · next hword hdot hend hbracket =>
      cases hx
      refine .inr (.inr ⟨?_, rfl, rfl⟩)
      intro l hl
      cases ls with
      | nil => cases hl
      | cons first more =>
        obtain rfl := Option.some.inj hl
        constructor
        · rintro rfl
          cases more with
          | nil => exact hend rfl
          | cons second more => exact hdot second more rfl
        · rintro rfl
          exact hbracket more rfl
  · rintro (⟨name, more, rfl, h, hpath⟩ | ⟨inner, key, more, rfl, ⟨hkey, hvalue⟩, h, hpath⟩ |
      ⟨hends, rfl, hrest⟩)
    · rw [Leaves, path, hpath]
      exact ⟨_, rfl⟩
    · rw [Leaves, path, hvalue]
      dsimp only
      rw [hpath]
      exact ⟨_, rfl⟩
    · have hnext : path e ls = .ok (e, ⟨ls, Nat.le_refl _⟩) := by
        rw [path]
        all_goals
          intros
          subst_vars
          first | exact absurd rfl (hends _ rfl).1 | exact absurd rfl (hends _ rfl).2
      rw [Leaves, hnext, hrest]
      exact ⟨_, rfl⟩

/-- Arguments are values with commas between them and a closing parenthesis after them. -/
theorem arguments_leaves {es : List Expr} : Leaves (arguments ls) es rest ↔
    (∃ e others more, Leaves (value ls) e (.comma :: more) ∧
      Leaves (arguments more) others rest ∧ es = e :: others) ∨
    (∃ e, Leaves (value ls) e (.parenClose :: rest) ∧ es = [e]) := by
  constructor
  · rintro ⟨h, hx⟩
    unfold arguments at hx
    split at hx
    · cases hx
    · next e more hlt hvalue =>
      split at hx
      · cases hx
      · next others after harguments =>
        cases hx
        exact .inl ⟨e, others, more, ⟨hlt, hvalue⟩, ⟨after.2, harguments⟩, rfl⟩
    · next e more hlt hvalue =>
      cases hx
      exact .inr ⟨e, ⟨hlt, hvalue⟩, rfl⟩
    · cases hx
    · cases hx
  · rintro (⟨e, others, more, ⟨hlt, hvalue⟩, ⟨hle, harguments⟩, rfl⟩ | ⟨e, ⟨hlt, hvalue⟩, rfl⟩)
    · rw [Leaves, arguments, hvalue]
      dsimp only
      rw [harguments]
      exact ⟨_, rfl⟩
    · rw [Leaves, arguments, hvalue]
      exact ⟨_, rfl⟩

/-- No value begins with a closing parenthesis. -/
theorem not_value_leaves_parenClose : ¬ Leaves (value (.parenClose :: ls)) e rest := by
  rintro ⟨h, hx⟩
  rw [value] at hx
  · cases hx
  all_goals simp

/-- A filter call is a name with empty parentheses, with arguments in parentheses, or alone. -/
theorem call_leaves {c : FilterCall} : Leaves (call ls) c rest ↔
    (∃ name, ls = .word name :: .parenOpen :: .parenClose :: rest ∧ c = ⟨name, []⟩) ∨
    (∃ name es more, ls = .word name :: .parenOpen :: more ∧
      Leaves (arguments more) es rest ∧ c = ⟨name, es⟩) ∨
    (∃ name, ls = .word name :: rest ∧ rest.head? ≠ some .parenOpen ∧ c = ⟨name, []⟩) := by
  constructor
  · rintro ⟨h, hx⟩
    unfold call at hx
    split at hx
    · next name more =>
      cases hx
      exact .inl ⟨name, rfl, rfl⟩
    · next name more _ =>
      split at hx
      · next es after harguments =>
        cases hx
        exact .inr (.inl ⟨name, es, more, rfl, ⟨after.2, harguments⟩, rfl⟩)
      · cases hx
    · next name more _ hparen =>
      cases hx
      refine .inr (.inr ⟨name, rfl, fun hhead ↦ ?_, rfl⟩)
      obtain ⟨tail, htail⟩ := List.head?_eq_some_iff.mp hhead
      exact hparen tail htail
    · cases hx
    · cases hx
  · rintro (⟨name, rfl, rfl⟩ | ⟨name, es, more, rfl, harguments, rfl⟩ | ⟨name, rfl, hparen, rfl⟩)
    · rw [Leaves, call]
      exact ⟨_, rfl⟩
    · have hclose (tail : List Lexeme) (htail : more = .parenClose :: tail) : False := by
        subst htail
        rcases arguments_leaves.mp harguments with ⟨e, others, after, hvalue, -⟩ | ⟨e, hvalue, -⟩
        · exact not_value_leaves_parenClose hvalue
        · exact not_value_leaves_parenClose hvalue
      obtain ⟨hle, hes⟩ := harguments
      rw [Leaves, call]
      · rw [hes]
        exact ⟨_, rfl⟩
      · exact hclose
    · have hopen (tail : List Lexeme) (htail : rest = .parenOpen :: tail) : False := by
        subst htail
        exact hparen rfl
      rw [Leaves, call]
      · exact ⟨_, rfl⟩
      · exact fun tail htail ↦ hopen _ htail
      · exact hopen

/-- Filter calls stand each after a bar. -/
theorem calls_eq_ok {cs : List FilterCall} : calls ls = .ok cs ↔
    (ls = [] ∧ cs = []) ∨
    (∃ more c after others, ls = .pipe :: more ∧ Leaves (call more) c after ∧
      calls after = .ok others ∧ cs = c :: others) := by
  constructor
  · intro h
    unfold calls at h
    split at h
    · cases h
      exact .inl ⟨rfl, rfl⟩
    · next more =>
      split at h
      · cases h
      · next c after hlt hcall =>
        obtain ⟨others, hothers, rfl⟩ := Computation.map_eq_ok.mp h
        exact .inr ⟨more, c, after, others, rfl, ⟨hlt, hcall⟩, hothers, rfl⟩
    · cases h
  · rintro (⟨rfl, rfl⟩ | ⟨more, c, after, others, rfl, ⟨hlt, hcall⟩, hothers, rfl⟩)
    · rw [calls]
    · rw [calls, hcall]
      exact Computation.map_eq_ok.mpr ⟨others, hothers, rfl⟩

end Readers

/-! ### From the readers to derivations -/

mutual

/-- What a value is read from has a derivation. -/
private theorem exists_valueTree {ls rest : List Lexeme} {e : Expr}
    (h : Leaves (value ls) e rest) : ∃ t : ValueTree, ls = t.lexemes ++ rest ∧ e = t.expr := by
  rcases value_leaves.mp h with ⟨delimiter, body, text, hls, htext, he⟩ | ⟨literal, n, hls, hn, he⟩ |
    ⟨k, hls, he⟩ | ⟨name, more, hls, hname, hpath⟩
  · exact ⟨.quoted delimiter body text htext, hls, he⟩
  · exact ⟨.number literal n hn, hls, he⟩
  · exact ⟨.keyword k, hls, he⟩
  · obtain ⟨steps, hmore, he⟩ := exists_stepsTree hpath
    exact ⟨.path name hname steps, by rw [hls, hmore]; rfl, he⟩
termination_by ls.length
decreasing_by
  rw [hls]
  exact Nat.lt_succ_self _

/-- What a path goes on with has a derivation. -/
private theorem exists_stepsTree {ls rest : List Lexeme} {base e : Expr}
    (h : Leaves (path base ls) e rest) :
    ∃ steps : StepsTree, ls = steps.lexemes ++ rest ∧ e = steps.expr base := by
  rcases path_leaves.mp h with ⟨name, more, hls, hpath⟩ | ⟨inner, key, more, hls, hkey, hpath⟩ |
    ⟨-, he, hls⟩
  · obtain ⟨steps, hmore, he⟩ := exists_stepsTree hpath
    exact ⟨.member name steps, by rw [hls, hmore]; rfl, he⟩
  · obtain ⟨t, hinner, rfl⟩ := exists_valueTree hkey
    obtain ⟨steps, hmore, he⟩ := exists_stepsTree hpath
    refine ⟨.index t steps, ?_, he⟩
    rw [hls, hinner, hmore]
    simp [StepsTree.lexemes]
  · exact ⟨.nil, hls.symm, he⟩
termination_by ls.length
decreasing_by
  · rw [hls]
    simp only [List.length_cons]
    omega
  · rw [hls]
    exact Nat.lt_succ_self _
  · obtain ⟨hlt, -⟩ := hkey
    rw [hls]
    simp only [List.length_cons] at hlt ⊢
    omega

end

/-- What arguments are read from has a derivation. -/
private theorem exists_separated {ls rest : List Lexeme} {es : List Expr}
    (h : Leaves (arguments ls) es rest) : ∃ ts : List ValueTree,
      ls = CallTree.separated ts ++ .parenClose :: rest ∧ ts ≠ [] ∧ es = ts.map ValueTree.expr := by
  rcases arguments_leaves.mp h with ⟨e, others, more, hvalue, hothers, rfl⟩ | ⟨e, hvalue, rfl⟩
  · obtain ⟨t, hls, rfl⟩ := exists_valueTree hvalue
    obtain ⟨ts, hmore, hne, rfl⟩ := exists_separated hothers
    refine ⟨t :: ts, ?_, List.cons_ne_nil _ _, rfl⟩
    rw [CallTree.separated_cons hne, hls, hmore]
    simp
  · obtain ⟨t, hls, rfl⟩ := exists_valueTree hvalue
    exact ⟨[t], by rw [CallTree.separated_singleton, hls], List.cons_ne_nil _ _, rfl⟩
termination_by ls.length
decreasing_by
  obtain ⟨hlt, -⟩ := hvalue
  simp only [List.length_cons] at hlt
  omega

/-- What a filter call is read from has a derivation. -/
private theorem exists_callTree {ls rest : List Lexeme} {c : FilterCall}
    (h : Leaves (call ls) c rest) : ∃ t : CallTree, ls = t.lexemes ++ rest ∧ c = t.call := by
  rcases call_leaves.mp h with ⟨name, rfl, rfl⟩ | ⟨name, es, more, rfl, harguments, rfl⟩ |
    ⟨name, rfl, -, rfl⟩
  · exact ⟨⟨name, some []⟩, rfl, rfl⟩
  · obtain ⟨ts, rfl, -, rfl⟩ := exists_separated harguments
    exact ⟨⟨name, some ts⟩, by simp [CallTree.lexemes], rfl⟩
  · exact ⟨⟨name, none⟩, rfl, rfl⟩

/-- What filter calls are read from has a derivation. -/
private theorem exists_barred {ls : List Lexeme} {cs : List FilterCall} (h : calls ls = .ok cs) :
    ∃ ts : List CallTree, ls = CallTree.barred ts ∧ cs = ts.map CallTree.call := by
  rcases calls_eq_ok.mp h with ⟨hls, rfl⟩ | ⟨more, c, after, others, hls, hcall, hothers, rfl⟩
  · exact ⟨[], hls, rfl⟩
  · obtain ⟨t, hmore, rfl⟩ := exists_callTree hcall
    obtain ⟨ts, hafter, rfl⟩ := exists_barred hothers
    exact ⟨t :: ts, by rw [hls, hmore, hafter]; rfl, rfl⟩
termination_by ls.length
decreasing_by
  obtain ⟨hlt, -⟩ := hcall
  rw [hls, List.length_cons]
  omega

/-! ### From derivations to the readers -/

mutual

/-- A value is read from the lexemes of its derivation, up to where no path goes on. -/
private theorem leaves_valueTree {rest : List Lexeme} (hrest : EndsPath rest) :
    (t : ValueTree) → Leaves (value (t.lexemes ++ rest)) t.expr rest
  | .quoted delimiter body text h => value_leaves.mpr (.inl ⟨delimiter, body, text, rfl, h, rfl⟩)
  | .number literal n h => value_leaves.mpr (.inr (.inl ⟨literal, n, rfl, h, rfl⟩))
  | .keyword k => value_leaves.mpr (.inr (.inr (.inl ⟨k, rfl, rfl⟩)))
  | .path name h steps => by
    have hsteps := leaves_stepsTree hrest steps (.named name)
    exact value_leaves.mpr (.inr (.inr (.inr ⟨name, _, rfl, h, hsteps⟩)))

private theorem leaves_stepsTree {rest : List Lexeme} (hrest : EndsPath rest) :
    (steps : StepsTree) → (base : Expr) →
      Leaves (path base (steps.lexemes ++ rest)) (steps.expr base) rest
  | .nil, base => path_leaves.mpr (.inr (.inr ⟨hrest, rfl, rfl⟩))
  | .member name steps, base => by
    have hsteps := leaves_stepsTree hrest steps (.member base name)
    exact path_leaves.mpr (.inl ⟨name, _, rfl, hsteps⟩)
  | .index key steps, base => by
    have hclosed : EndsPath (.bracketClose :: (steps.lexemes ++ rest)) := by
      rintro l ⟨⟩
      exact ⟨nofun, nofun⟩
    have hkey := leaves_valueTree hclosed key
    have hsteps := leaves_stepsTree hrest steps (.index base key.expr)
    refine path_leaves.mpr (.inr (.inl ⟨_, key.expr, _, ?_, hkey, hsteps⟩))
    simp [StepsTree.lexemes]

end

private theorem endsPath_comma (ls : List Lexeme) : EndsPath (.comma :: ls) := by
  rintro l ⟨⟩
  exact ⟨nofun, nofun⟩

private theorem endsPath_parenClose (ls : List Lexeme) : EndsPath (.parenClose :: ls) := by
  rintro l ⟨⟩
  exact ⟨nofun, nofun⟩

private theorem leaves_separated (rest : List Lexeme) (t : ValueTree) (ts : List ValueTree) :
    Leaves (arguments (CallTree.separated (t :: ts) ++ .parenClose :: rest))
      ((t :: ts).map ValueTree.expr) rest := by
  induction ts generalizing t with
  | nil =>
    rw [CallTree.separated_singleton]
    exact arguments_leaves.mpr (.inr ⟨_, leaves_valueTree (endsPath_parenClose _) t, rfl⟩)
  | cons second ts ih =>
    have hvalue := leaves_valueTree
      (endsPath_comma (CallTree.separated (second :: ts) ++ .parenClose :: rest)) t
    rw [CallTree.separated_cons (List.cons_ne_nil _ _), List.append_assoc, List.cons_append]
    exact arguments_leaves.mpr (.inl ⟨_, _, _, hvalue, ih second, rfl⟩)

/-- A filter call is read from the lexemes of its derivation, unless a parenthesis follows. -/
private theorem leaves_callTree {rest : List Lexeme} (hrest : rest.head? ≠ some .parenOpen)
    (t : CallTree) : Leaves (call (t.lexemes ++ rest)) t.call rest := by
  obtain ⟨name, _ | _ | ⟨first, others⟩⟩ := t
  · exact call_leaves.mpr (.inr (.inr ⟨name, rfl, hrest, rfl⟩))
  · exact call_leaves.mpr (.inl ⟨name, rfl, rfl⟩)
  · refine call_leaves.mpr (.inr (.inl ⟨name, _, _, ?_, leaves_separated rest first others, rfl⟩))
    simp [CallTree.lexemes]

private theorem head?_barred (ts : List CallTree) :
    ∀ l ∈ (CallTree.barred ts).head?, l = .pipe := by
  cases ts with
  | nil => nofun
  | cons t ts => exact fun l hl ↦ (Option.some.inj hl).symm

private theorem endsPath_barred (ts : List CallTree) : EndsPath (CallTree.barred ts) := by
  intro l hl
  rw [head?_barred ts l hl]
  exact ⟨nofun, nofun⟩

private theorem head?_barred_ne (ts : List CallTree) :
    (CallTree.barred ts).head? ≠ some .parenOpen :=
  fun hhead ↦ by cases head?_barred ts _ hhead

private theorem calls_barred (ts : List CallTree) :
    calls (CallTree.barred ts) = .ok (ts.map CallTree.call) := by
  induction ts with
  | nil => exact calls_eq_ok.mpr (.inl ⟨rfl, rfl⟩)
  | cons t ts ih =>
    have hcall := leaves_callTree (head?_barred_ne ts) t
    exact calls_eq_ok.mpr (.inr ⟨_, _, _, _, rfl, hcall, ih, rfl⟩)

/-! ### Lexemes have one derivation -/

mutual

/-- The lexemes of a value, up to where no path goes on, tell the value. -/
private theorem eq_of_valueTree_append {rest rest' : List Lexeme} (hrest : EndsPath rest)
    (hrest' : EndsPath rest') : (t t' : ValueTree) → t.lexemes ++ rest = t'.lexemes ++ rest' →
      t = t' ∧ rest = rest'
  | .quoted delimiter body text h, t', heq => by
    cases t' with
    | quoted delimiter' body' text' h' =>
      cases heq
      cases h.symm.trans h'
      exact ⟨rfl, rfl⟩
    | _ => cases heq
  | .number literal n h, t', heq => by
    cases t' with
    | number literal' n' h' =>
      cases heq
      cases h.symm.trans h'
      exact ⟨rfl, rfl⟩
    | _ => cases heq
  | .keyword k, t', heq => by
    cases t' with
    | keyword k' =>
      obtain ⟨hword, htail⟩ := List.cons.inj heq
      cases Keyword.word_injective (Lexeme.word.inj hword)
      exact ⟨rfl, htail⟩
    | path name h steps =>
      obtain ⟨hword, -⟩ := List.cons.inj heq
      exact absurd (Lexeme.word.inj hword).symm (h k)
    | _ => cases heq
  | .path name h steps, t', heq => by
    cases t' with
    | keyword k =>
      obtain ⟨hword, -⟩ := List.cons.inj heq
      exact absurd (Lexeme.word.inj hword) (h k)
    | path name' h' steps' =>
      obtain ⟨hword, htail⟩ := List.cons.inj heq
      obtain ⟨rfl, rfl⟩ := eq_of_stepsTree_append hrest hrest' steps steps' htail
      cases hword
      exact ⟨rfl, rfl⟩
    | _ => cases heq

private theorem eq_of_stepsTree_append {rest rest' : List Lexeme} (hrest : EndsPath rest)
    (hrest' : EndsPath rest') : (steps steps' : StepsTree) →
      steps.lexemes ++ rest = steps'.lexemes ++ rest' → steps = steps' ∧ rest = rest'
  | .nil, steps', heq => by
    cases steps' with
    | nil => exact ⟨rfl, heq⟩
    | member name' steps' =>
      subst heq
      exact absurd rfl (hrest _ rfl).1
    | index key' steps' =>
      subst heq
      exact absurd rfl (hrest _ rfl).2
  | .member name steps, steps', heq => by
    cases steps' with
    | nil =>
      subst heq
      exact absurd rfl (hrest' _ rfl).1
    | member name' steps' =>
      obtain ⟨hname, htail⟩ := List.cons.inj (List.cons.inj heq).2
      obtain ⟨rfl, rfl⟩ := eq_of_stepsTree_append hrest hrest' steps steps' htail
      cases hname
      exact ⟨rfl, rfl⟩
    | index key' steps' => cases heq
  | .index key steps, steps', heq => by
    cases steps' with
    | nil =>
      subst heq
      exact absurd rfl (hrest' _ rfl).2
    | member name' steps' => cases heq
    | index key' steps' =>
      have hclosed (ls : List Lexeme) : EndsPath (.bracketClose :: ls) := by
        rintro l ⟨⟩
        exact ⟨nofun, nofun⟩
      rw [StepsTree.lexemes, StepsTree.lexemes, List.cons_append, List.cons_append,
        List.append_assoc, List.append_assoc] at heq
      have htail := (List.cons.inj heq).2
      obtain ⟨rfl, hafter⟩ := eq_of_valueTree_append (hclosed _) (hclosed _) key key' htail
      obtain ⟨rfl, rfl⟩ := eq_of_stepsTree_append hrest hrest' steps steps' (List.cons.inj hafter).2
      exact ⟨rfl, rfl⟩

end

private theorem eq_of_separated_append {rest rest' : List Lexeme} (t t' : ValueTree)
    (ts ts' : List ValueTree) (heq : CallTree.separated (t :: ts) ++ .parenClose :: rest =
      CallTree.separated (t' :: ts') ++ .parenClose :: rest') :
    t :: ts = t' :: ts' ∧ rest = rest' := by
  induction ts generalizing t t' ts' with
  | nil =>
    rw [CallTree.separated_singleton] at heq
    cases ts' with
    | nil =>
      rw [CallTree.separated_singleton] at heq
      obtain ⟨rfl, hafter⟩ :=
        eq_of_valueTree_append (endsPath_parenClose _) (endsPath_parenClose _) t t' heq
      exact ⟨rfl, (List.cons.inj hafter).2⟩
    | cons u' us' =>
      rw [CallTree.separated_cons (List.cons_ne_nil _ _), List.append_assoc] at heq
      obtain ⟨-, hafter⟩ :=
        eq_of_valueTree_append (endsPath_parenClose _) (endsPath_comma _) t t' heq
      cases hafter
  | cons u us ih =>
    rw [CallTree.separated_cons (List.cons_ne_nil _ _), List.append_assoc] at heq
    cases ts' with
    | nil =>
      rw [CallTree.separated_singleton] at heq
      obtain ⟨-, hafter⟩ :=
        eq_of_valueTree_append (endsPath_comma _) (endsPath_parenClose _) t t' heq
      cases hafter
    | cons u' us' =>
      rw [CallTree.separated_cons (List.cons_ne_nil _ _), List.append_assoc] at heq
      obtain ⟨rfl, hafter⟩ :=
        eq_of_valueTree_append (endsPath_comma _) (endsPath_comma _) t t' heq
      obtain ⟨hlater, rfl⟩ := ih u u' us' (List.cons.inj hafter).2
      exact ⟨by rw [hlater], rfl⟩

/-- No value begins with a closing parenthesis, so empty parentheses hold no arguments. -/
private theorem separated_ne (t : ValueTree) (ts : List ValueTree) (ls rest : List Lexeme) :
    CallTree.separated (t :: ts) ++ ls ≠ .parenClose :: rest := by
  obtain ⟨after, hafter⟩ : ∃ after, CallTree.separated (t :: ts) = t.lexemes ++ after := by
    cases ts with
    | nil => exact ⟨[], by rw [CallTree.separated_singleton, List.append_nil]⟩
    | cons u us => exact ⟨_, CallTree.separated_cons (List.cons_ne_nil _ _)⟩
  rw [hafter]
  cases t <;> nofun

/-- The lexemes of a filter call, unless a parenthesis follows, tell the filter call. -/
private theorem eq_of_callTree_append {rest rest' : List Lexeme}
    (hrest : rest.head? ≠ some .parenOpen) (hrest' : rest'.head? ≠ some .parenOpen)
    {t t' : CallTree} (heq : t.lexemes ++ rest = t'.lexemes ++ rest') :
    t = t' ∧ rest = rest' := by
  obtain ⟨name, ts⟩ := t
  obtain ⟨name', ts'⟩ := t'
  cases ts with
  | none =>
    cases ts' with
    | none =>
      cases heq
      exact ⟨rfl, rfl⟩
    | some ts' =>
      cases heq
      exact absurd rfl hrest
  | some ts =>
    cases ts' with
    | none =>
      cases heq
      exact absurd rfl hrest'
    | some ts' =>
      simp only [CallTree.lexemes, List.cons_append, List.append_assoc, List.cons.injEq,
        Lexeme.word.injEq, true_and, List.nil_append] at heq
      obtain ⟨rfl, heq⟩ := heq
      match ts, ts' with
      | [], [] =>
        cases heq
        exact ⟨rfl, rfl⟩
      | [], u' :: us' => exact absurd heq.symm (separated_ne u' us' _ _)
      | u :: us, [] => exact absurd heq (separated_ne u us _ _)
      | u :: us, u' :: us' =>
        obtain ⟨hts, rfl⟩ := eq_of_separated_append u u' us us' heq
        exact ⟨by rw [hts], rfl⟩

private theorem barred_injective : Function.Injective CallTree.barred := by
  intro ts ts' heq
  induction ts generalizing ts' with
  | nil =>
    cases ts' with
    | nil => rfl
    | cons u' us' => cases heq
  | cons u us ih =>
    cases ts' with
    | nil => cases heq
    | cons u' us' =>
      obtain ⟨rfl, htail⟩ := eq_of_callTree_append (head?_barred_ne us) (head?_barred_ne us')
        (List.cons.inj heq).2
      rw [ih htail]

/-! ### Whole expressions and filter chains -/

/-- Lexemes are read as the expression that a derivation of them stands for. -/
theorem ofLexemes_eq_ok {ls : List Lexeme} {e : Expression} :
    ofLexemes ls = .ok e ↔ ∃ t : ExpressionTree, ls = t.lexemes ∧ t.expression = e := by
  constructor
  · intro h
    unfold ofLexemes at h
    split at h
    · cases h
    · next base rest hvalue =>
      obtain ⟨filters, hfilters, rfl⟩ := Computation.map_eq_ok.mp h
      obtain ⟨t, hls, rfl⟩ := exists_valueTree ⟨rest.2, hvalue⟩
      obtain ⟨ts, hrest, rfl⟩ := exists_barred hfilters
      exact ⟨⟨t, ts⟩, by rw [hls, hrest]; rfl, rfl⟩
  · rintro ⟨⟨t, ts⟩, rfl, rfl⟩
    obtain ⟨h, hvalue⟩ := leaves_valueTree (endsPath_barred ts) t
    rw [ofLexemes, ExpressionTree.lexemes, hvalue]
    exact Computation.map_eq_ok.mpr ⟨_, calls_barred ts, rfl⟩

/-- Lexemes are read as the filter chain that a derivation of them stands for. -/
theorem chainOfLexemes_eq_ok {ls : List Lexeme} {cs : List FilterCall} :
    chainOfLexemes ls = .ok cs ↔ ∃ t : ChainTree, ls = t.lexemes ∧ t.calls = cs := by
  constructor
  · intro h
    unfold chainOfLexemes at h
    split at h
    · cases h
    · next first rest hcall =>
      obtain ⟨filters, hfilters, rfl⟩ := Computation.map_eq_ok.mp h
      obtain ⟨t, hls, rfl⟩ := exists_callTree ⟨rest.2, hcall⟩
      obtain ⟨ts, hrest, rfl⟩ := exists_barred hfilters
      exact ⟨⟨t, ts⟩, by rw [hls, hrest]; rfl, rfl⟩
  · rintro ⟨⟨t, ts⟩, rfl, rfl⟩
    obtain ⟨h, hcall⟩ := leaves_callTree (head?_barred_ne ts) t
    rw [chainOfLexemes, ChainTree.lexemes, hcall]
    exact Computation.map_eq_ok.mpr ⟨_, calls_barred ts, rfl⟩

theorem lexemes_expressionTree_injective : Function.Injective ExpressionTree.lexemes := by
  rintro ⟨t, ts⟩ ⟨t', ts'⟩ heq
  obtain ⟨rfl, htail⟩ :=
    eq_of_valueTree_append (endsPath_barred ts) (endsPath_barred ts') t t' heq
  rw [barred_injective htail]

theorem lexemes_chainTree_injective : Function.Injective ChainTree.lexemes := by
  rintro ⟨t, ts⟩ ⟨t', ts'⟩ heq
  obtain ⟨rfl, htail⟩ := eq_of_callTree_append (head?_barred_ne ts) (head?_barred_ne ts') heq
  rw [barred_injective htail]

/-- A text is an expression, or a filter chain, exactly if its lexemes have a derivation, and it is the
one that the derivation stands for. Lexemes have one derivation at most. -/
theorem parse_eq_ok_iff (source : String) :
    (∀ e, parse source = .ok e ↔
      ∃ t : ExpressionTree, lexemes source = .ok t.lexemes ∧ t.expression = e) ∧
    (∀ cs, parseChain source = .ok cs ↔
      ∃ t : ChainTree, lexemes source = .ok t.lexemes ∧ t.calls = cs) ∧
    Function.Injective ExpressionTree.lexemes ∧ Function.Injective ChainTree.lexemes := by
  refine ⟨fun e ↦ ?_, fun cs ↦ ?_, lexemes_expressionTree_injective, lexemes_chainTree_injective⟩
  · rw [parse, Computation.bind_eq_ok]
    constructor
    · rintro ⟨_, hls, he⟩
      obtain ⟨t, rfl, rfl⟩ := ofLexemes_eq_ok.mp he
      exact ⟨t, hls, rfl⟩
    · rintro ⟨t, hls, rfl⟩
      exact ⟨t.lexemes, hls, ofLexemes_eq_ok.mpr ⟨t, rfl, rfl⟩⟩
  · rw [parseChain, Computation.bind_eq_ok]
    constructor
    · rintro ⟨_, hls, hcs⟩
      obtain ⟨t, rfl, rfl⟩ := chainOfLexemes_eq_ok.mp hcs
      exact ⟨t, hls, rfl⟩
    · rintro ⟨t, hls, rfl⟩
      exact ⟨t.lexemes, hls, chainOfLexemes_eq_ok.mpr ⟨t, rfl, rfl⟩⟩

end Expression

end Stencil
