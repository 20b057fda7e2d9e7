import Stencil.Proofs.Splitting
import Stencil.Tag.Builtin

/-!
# Squeezed text

Squeezing a text takes out the blanks that stand between a `>` and the next `<`, and nothing else. It
does not matter whether a part of the text was squeezed before: what a blank at the edge of the part
stands between is not lost.
-/

namespace Stencil

/-! ### What is taken out -/

namespace Text

/-- The first character that is no blank. -/
def firstVisible? (cs : List Char) : Option Char := cs.find? fun c ↦ !isBlank c

/-- Whether the character at a position of a text, after some characters in reverse, is a blank
between HTML tags: what is next to the blanks around it is a `>` before them and a `<` after them. -/
def BetweenTags (before cs : List Char) (i : Nat) : Prop :=
  (∃ c ∈ cs[i]?, isBlank c = true) ∧ firstVisible? ((cs.take i).reverse ++ before) = some '>' ∧
    firstVisible? (cs.drop i) = some '<'

instance (before cs : List Char) : DecidablePred (BetweenTags before cs) :=
  fun i ↦ inferInstanceAs (Decidable ((∃ c ∈ cs[i]?, isBlank c = true) ∧
    firstVisible? ((cs.take i).reverse ++ before) = some '>' ∧
      firstVisible? (cs.drop i) = some '<'))

variable {c : Char} {before cs : List Char} {i : Nat}

theorem firstVisible?_cons_of_isBlank (h : isBlank c = true) :
    firstVisible? (c :: cs) = firstVisible? cs := by
  simp [firstVisible?, h]

theorem firstVisible?_cons_of_not_isBlank (h : isBlank c = false) :
    firstVisible? (c :: cs) = some c := by
  simp [firstVisible?, h]

theorem betweenTags_zero : BetweenTags before (c :: cs) 0 ↔
    isBlank c = true ∧ firstVisible? before = some '>' ∧ firstVisible? (c :: cs) = some '<' := by
  simp [BetweenTags]

theorem betweenTags_succ :
    BetweenTags before (c :: cs) (i + 1) ↔ BetweenTags (c :: before) cs i := by
  simp [BetweenTags]

end Text

namespace RawTag

open Text

variable {read : Option (List Char)} {c : Char} {rest : List Char}

/-- A blank after a `>` waits for what comes next. -/
theorem squeezeFrom_some_of_isBlank (h : isBlank c = true) (blanks rest : List Char) :
    squeezeFrom (some blanks) (c :: rest) = squeezeFrom (some (c :: blanks)) rest := by
  rw [squeezeFrom_some_cons, if_pos h]

/-- A blank that is not after a `>` stays. -/
theorem squeezeFrom_none_of_isBlank (h : isBlank c = true) (rest : List Char) :
    squeezeFrom none (c :: rest) = c :: squeezeFrom none rest := by
  have hne : c ≠ '>' := by
    rintro rfl
    cases h
  rw [squeezeFrom_none_cons, if_neg hne]

/-- A character that is no blank decides about the blanks before it. -/
theorem squeezeFrom_of_not_isBlank (h : isBlank c = false) (read : Option (List Char))
    (rest : List Char) : squeezeFrom read (c :: rest) =
      (if c = '<' then [] else (read.getD []).reverse) ++
        c :: squeezeFrom (if c = '>' then some [] else none) rest := by
  cases read with
  | none => simp [squeezeFrom_none_cons]
  | some blanks => simp [squeezeFrom_some_cons, h]

/-- What squeezing makes of the rest of a text: blanks that were read since a `>` go if a `<` is next
to them, and of the rest go the blanks between tags. -/
theorem squeezeFrom_eq {before : List Char}
    (h : read.isSome = true ↔ firstVisible? before = some '>') (cs : List Char) :
    squeezeFrom read cs =
      (if firstVisible? cs = some '<' then [] else (read.getD []).reverse) ++
        without (BetweenTags before cs) cs := by
  induction cs generalizing read before with
  | nil => simp [squeezeFrom_nil, without, firstVisible?]
  | cons c rest ih =>
    have hrest : without (fun i ↦ BetweenTags before (c :: rest) (i + 1)) rest =
        without (BetweenTags (c :: before) rest) rest :=
      without_congr (fun _ ↦ betweenTags_succ) rest
    rw [without_cons, hrest]
    cases hblank : isBlank c with
    | true =>
      have hbefore : firstVisible? (c :: before) = firstVisible? before :=
        firstVisible?_cons_of_isBlank hblank
      rw [firstVisible?_cons_of_isBlank hblank]
      cases read with
      | none =>
        have hkeeps : ¬BetweenTags before (c :: rest) 0 := by
          rw [betweenTags_zero, ← h]
          simp
        rw [squeezeFrom_none_of_isBlank hblank, ih (hbefore ▸ h), if_neg hkeeps]
        simp
      | some blanks =>
        have hgoes : BetweenTags before (c :: rest) 0 ↔ firstVisible? rest = some '<' := by
          rw [betweenTags_zero, ← h, firstVisible?_cons_of_isBlank hblank]
          simp [hblank]
        rw [squeezeFrom_some_of_isBlank hblank, ih (hbefore ▸ h)]
        by_cases hnext : firstVisible? rest = some '<'
        · simp [hgoes, hnext]
        · simp [hgoes, hnext]
    | false =>
      have hbefore : firstVisible? (c :: before) = some c :=
        firstVisible?_cons_of_not_isBlank hblank
      have hkeeps : ¬BetweenTags before (c :: rest) 0 := by simp [betweenTags_zero, hblank]
      rw [firstVisible?_cons_of_not_isBlank hblank, squeezeFrom_of_not_isBlank hblank,
        if_neg hkeeps]
      by_cases hcloses : c = '>'
      · rw [if_pos hcloses, @ih (some []) (c :: before) (by rw [hbefore, hcloses]; simp)]
        simp
      · rw [if_neg hcloses, @ih none (c :: before) (by simp [hbefore, hcloses])]
        simp

/-- Squeezing takes out the blanks between tags, and nothing else. -/
theorem squeeze_eq (cs : List Char) : squeeze cs = without (BetweenTags [] cs) cs := by
  have h := @squeezeFrom_eq none [] (by simp [firstVisible?]) cs
  simpa [squeeze] using h

/-! ### Squeezing again -/

/-- Blanks after a `>` wait for what comes next. -/
theorem squeezeFrom_some_append {blanks : List Char} (h : ∀ c ∈ blanks, isBlank c = true)
    (waiting rest : List Char) : squeezeFrom (some waiting) (blanks ++ rest) =
      squeezeFrom (some (blanks.reverse ++ waiting)) rest := by
  induction blanks generalizing waiting with
  | nil => rfl
  | cons c blanks ih =>
    rw [List.cons_append, squeezeFrom_some_of_isBlank (h c List.mem_cons_self),
      ih fun d hd ↦ h d (List.mem_cons_of_mem _ hd)]
    simp

/-- A text that was squeezed goes on like the text itself, from every state and before every other
text; and blanks that were waiting when the squeezing began are read again after their `>`. -/
theorem squeezeFrom_squeezeFrom_append (text rest : List Char) :
    (∀ read, squeezeFrom read (squeezeFrom none text ++ rest) = squeezeFrom read (text ++ rest)) ∧
      ∀ blanks, (∀ c ∈ blanks, isBlank c = true) →
        squeezeFrom (some []) (squeezeFrom (some blanks) text ++ rest) =
          squeezeFrom (some blanks) (text ++ rest) := by
  induction text with
  | nil =>
    refine ⟨fun read ↦ rfl, fun blanks hblanks ↦ ?_⟩
    have hwaiting : squeezeFrom (some blanks) [] = blanks.reverse := squeezeFrom_nil _
    rw [hwaiting, squeezeFrom_some_append fun c hc ↦ hblanks c (List.mem_reverse.mp hc)]
    simp
  | cons c text ih =>
    obtain ⟨hnone, hsome⟩ := ih
    cases hblank : isBlank c with
    | true =>
      refine ⟨fun read ↦ ?_, fun blanks hblanks ↦ ?_⟩
      · rw [squeezeFrom_none_of_isBlank hblank, List.cons_append, List.cons_append]
        cases read with
        | none =>
          rw [squeezeFrom_none_of_isBlank hblank, squeezeFrom_none_of_isBlank hblank, hnone]
        | some waiting =>
          rw [squeezeFrom_some_of_isBlank hblank, squeezeFrom_some_of_isBlank hblank, hnone]
      · rw [squeezeFrom_some_of_isBlank hblank, List.cons_append,
          squeezeFrom_some_of_isBlank hblank]
        exact hsome (c :: blanks) (List.forall_mem_cons.mpr ⟨hblank, hblanks⟩)
    | false =>
      -- The state after a visible character does not depend on the one before it.
      have hafter : ∀ read, squeezeFrom read (c :: squeezeFrom (if c = '>' then some [] else none)
          text ++ rest) = squeezeFrom read (c :: (text ++ rest)) := by
        intro read
        rw [List.cons_append, squeezeFrom_of_not_isBlank hblank, squeezeFrom_of_not_isBlank hblank]
        by_cases hcloses : c = '>'
        · rw [if_pos hcloses, hsome [] (by simp)]
        · rw [if_neg hcloses, hnone]
      refine ⟨fun read ↦ ?_, fun blanks hblanks ↦ ?_⟩
      · have htext := squeezeFrom_of_not_isBlank hblank none text
        have hnothing : (if c = '<' then [] else ((none : Option (List Char)).getD []).reverse) =
            [] := by simp
        rw [htext, hnothing, List.nil_append]
        exact hafter read
      · rw [squeezeFrom_of_not_isBlank hblank (some blanks) text]
        by_cases hopens : c = '<'
        · rw [if_pos hopens, List.nil_append, hafter, squeezeFrom_of_not_isBlank hblank,
            List.cons_append, squeezeFrom_of_not_isBlank hblank, if_pos hopens, if_pos hopens]
        · have hreverse : ∀ c ∈ blanks.reverse, isBlank c = true :=
            fun c hc ↦ hblanks c (List.mem_reverse.mp hc)
          rw [if_neg hopens, Option.getD_some, List.append_assoc, squeezeFrom_some_append hreverse,
            hafter]
          simp

/-- Texts that go on alike do so after every other text. -/
theorem squeezeFrom_append_congr {b d : List Char}
    (h : ∀ read, squeezeFrom read b = squeezeFrom read d) (a : List Char)
    (read : Option (List Char)) : squeezeFrom read (a ++ b) = squeezeFrom read (a ++ d) := by
  induction a generalizing read with
  | nil => exact h read
  | cons c a ih =>
    cases read with
    | none => simp [squeezeFrom_none_cons, ih]
    | some blanks => simp [squeezeFrom_some_cons, ih]

/-- It does not matter whether a part of a text is squeezed before the text is. -/
theorem squeeze_append_squeeze_append (a b c : List Char) :
    squeeze (a ++ squeeze b ++ c) = squeeze (a ++ b ++ c) := by
  rw [List.append_assoc, List.append_assoc]
  exact squeezeFrom_append_congr (squeezeFrom_squeezeFrom_append b c).1 a none

/-- What is squeezed stays as it is. -/
theorem squeeze_squeeze (cs : List Char) : squeeze (squeeze cs) = squeeze cs := by
  simpa using squeeze_append_squeeze_append [] cs []

end RawTag

end Stencil
