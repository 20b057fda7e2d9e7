import Stencil.Proofs.Sealed
import Stencil.Tag

/-!
# Splitting arguments

The text after the name of a tag is split at the blanks outside of string literals and brackets. The
items are what is left of the text without these blanks; joined with blanks again, they are split in
the same way.
-/

namespace Stencil

/-! ### Brackets -/

namespace Text

/-- How many brackets are open after one more character. Brackets in literals do not count. -/
def bracketStep (quoting : Quoting) (depth : Nat) (c : Char) : Nat :=
  if quoting ≠ .bare then depth
  else if c = '(' ∨ c = '[' then depth + 1
  else if c = ')' ∨ c = ']' then depth - 1
  else depth

/-- How many brackets are open after a text. -/
def bracketRun : Quoting → Nat → List Char → Nat
  | _, depth, [] => depth
  | quoting, depth, c :: rest => bracketRun (quoting.step c) (bracketStep quoting depth c) rest

/-- Whether every blank of some code, read in a quoting state and with some brackets open, stands in
a string literal or in brackets. -/
def Solid : Quoting → Nat → List Char → Prop
  | _, _, [] => True
  | quoting, depth, c :: rest =>
    (isBlank c = true → quoting ≠ .bare ∨ 0 < depth) ∧
      Solid (quoting.step c) (bracketStep quoting depth c) rest

instance decidableSolid : (quoting : Quoting) → (depth : Nat) → (cs : List Char) →
    Decidable (Solid quoting depth cs)
  | _, _, [] => inferInstanceAs (Decidable True)
  | quoting, depth, c :: rest =>
    have := decidableSolid (quoting.step c) (bracketStep quoting depth c) rest
    inferInstanceAs (Decidable ((isBlank c = true → quoting ≠ .bare ∨ 0 < depth) ∧
      Solid (quoting.step c) (bracketStep quoting depth c) rest))

theorem bracketRun_append (quoting : Quoting) (depth : Nat) (a b : List Char) :
    bracketRun quoting depth (a ++ b) =
      bracketRun (quoting.run a) (bracketRun quoting depth a) b := by
  induction a generalizing quoting depth with
  | nil => rfl
  | cons c a ih => exact ih _ _

theorem solid_append {quoting : Quoting} {depth : Nat} {a b : List Char} :
    Solid quoting depth (a ++ b) ↔
      Solid quoting depth a ∧ Solid (quoting.run a) (bracketRun quoting depth a) b := by
  induction a generalizing quoting depth with
  | nil => exact ⟨fun h ↦ ⟨trivial, h⟩, And.right⟩
  | cons c a ih => rw [List.cons_append, Solid, ih, ← and_assoc]; rfl

theorem notMem_brackets_of_isBlank {c : Char} (h : isBlank c = true) : c ∉ brackets := by
  have hbrackets : brackets.any isBlank = false := by decide
  exact fun hmem ↦ List.any_eq_false.mp hbrackets c hmem h

theorem bracketStep_inside {quoting : Quoting} (h : quoting ≠ .bare) (depth : Nat) (c : Char) :
    bracketStep quoting depth c = depth :=
  if_pos h

theorem bracketStep_of_notMem {c : Char} (h : c ∉ brackets) (quoting : Quoting) (depth : Nat) :
    bracketStep quoting depth c = depth := by
  simp only [brackets, List.mem_cons, List.not_mem_nil, or_false, not_or] at h
  simp [bracketStep, h]

/-- Plain characters without brackets change nothing. -/
theorem bracketRun_of_isPlain {cs : List Char} (h : ∀ c ∈ cs, IsPlain c ∧ c ∉ brackets)
    (depth : Nat) : bracketRun .bare depth cs = depth := by
  induction cs with
  | nil => rfl
  | cons c rest ih =>
    obtain ⟨hplain, hbracket⟩ := h c List.mem_cons_self
    rw [bracketRun, hplain.step_bare, bracketStep_of_notMem hbracket]
    exact ih fun d hd ↦ h d (List.mem_cons_of_mem _ hd)

end Text


/-! ### Taking characters out -/

namespace Text

/-- The characters of a text without those at some positions. -/
def without (p : Nat → Prop) [DecidablePred p] (cs : List Char) : List Char :=
  (cs.zipIdx.filter fun e ↦ ¬p e.2).map Prod.fst

theorem without_cons (p : Nat → Prop) [DecidablePred p] (c : Char) (cs : List Char) :
    without p (c :: cs) = (if p 0 then [] else [c]) ++ without (fun i ↦ p (i + 1)) cs := by
  unfold without
  rw [List.zipIdx_cons, List.zipIdx_succ, List.filter_cons, List.filter_map]
  split <;> simp_all [Function.comp_def]

theorem without_congr {p p' : Nat → Prop} [DecidablePred p] [DecidablePred p']
    (h : ∀ i, p i ↔ p' i) (cs : List Char) : without p cs = without p' cs := by
  unfold without
  congr 1
  exact List.filter_congr fun e _ ↦ by simp only [h]

/-- Whether the character at a position of a text, read in a quoting state and with some brackets
open, separates items: it is a blank outside of string literals and brackets. -/
def Separates (quoting : Quoting) (depth : Nat) (cs : List Char) (i : Nat) : Prop :=
  (∃ c ∈ cs[i]?, isBlank c = true) ∧ quoting.run (cs.take i) = .bare ∧
    bracketRun quoting depth (cs.take i) = 0

instance (quoting : Quoting) (depth : Nat) (cs : List Char) :
    DecidablePred (Separates quoting depth cs) :=
  fun i ↦ inferInstanceAs (Decidable ((∃ c ∈ cs[i]?, isBlank c = true) ∧
    quoting.run (cs.take i) = .bare ∧ bracketRun quoting depth (cs.take i) = 0))

section

variable {quoting : Quoting} {depth i : Nat} {c : Char} {cs : List Char}

theorem separates_zero :
    Separates quoting depth (c :: cs) 0 ↔ isBlank c = true ∧ quoting = .bare ∧ depth = 0 := by
  simp [Separates, bracketRun]

theorem not_separates_zero : ¬Separates quoting depth (c :: cs) 0 ↔
    (isBlank c = true → quoting ≠ .bare ∨ 0 < depth) := by
  rw [separates_zero, not_and, not_and_or, Nat.pos_iff_ne_zero]

theorem separates_succ : Separates quoting depth (c :: cs) (i + 1) ↔
    Separates (quoting.step c) (bracketStep quoting depth c) cs i :=
  Iff.rfl

end

end Text

/-! ### Splitting at blanks -/

section Splitting

variable {quoting : Text.Quoting} {depth : Nat} {c : Char} {item cs gap : List Char}

/-- A character that is no blank, or stands in a literal or in brackets, goes on with the item. -/
theorem splitArgumentsFrom_cons (h : Text.isBlank c = true → quoting ≠ .bare ∨ 0 < depth)
    (rest : List Char) :
    splitArgumentsFrom item quoting depth (c :: rest) =
      splitArgumentsFrom (c :: item) (quoting.step c) (Text.bracketStep quoting depth c) rest := by
  cases quoting with
  | inside delimiter escaped =>
    rw [splitArgumentsFrom, Text.bracketStep_inside Text.Quoting.noConfusion]
  | bare =>
    rw [splitArgumentsFrom, Text.bracketStep, if_neg (not_not_intro rfl)]
    by_cases hopens : c = '(' ∨ c = '['
    · have hstep : Text.Quoting.bare.step c = .bare := by rcases hopens with rfl | rfl <;> rfl
      rw [if_pos hopens, if_pos hopens, hstep]
    · by_cases hcloses : c = ')' ∨ c = ']'
      · have hstep : Text.Quoting.bare.step c = .bare := by rcases hcloses with rfl | rfl <;> rfl
        rw [if_neg hopens, if_neg hopens, if_pos hcloses, if_pos hcloses, hstep]
      · have hkeeps : ¬(Text.isBlank c = true ∧ depth = 0) := fun ⟨hblank, hdepth⟩ ↦
          (h hblank).elim (absurd rfl) fun hpos ↦ absurd hdepth (Nat.ne_of_gt hpos)
        rw [if_neg hopens, if_neg hopens, if_neg hcloses, if_neg hcloses, if_neg hkeeps]

/-- Code whose blanks all stand in literals or brackets goes on with one item. -/
theorem splitArgumentsFrom_append (h : Text.Solid quoting depth cs) (rest : List Char) :
    splitArgumentsFrom item quoting depth (cs ++ rest) =
      splitArgumentsFrom (cs.reverse ++ item) (quoting.run cs) (Text.bracketRun quoting depth cs)
        rest := by
  induction cs generalizing item quoting depth with
  | nil => rfl
  | cons c cs ih =>
    rw [List.cons_append, splitArgumentsFrom_cons h.1, ih h.2, List.reverse_cons,
      List.append_assoc]
    rfl

theorem splitArgumentsFrom_blank (h : Text.isBlank c = true) (rest : List Char) :
    splitArgumentsFrom item .bare 0 (c :: rest) =
      if item = [] then splitArgumentsFrom [] .bare 0 rest
      else item.reverse :: splitArgumentsFrom [] .bare 0 rest := by
  have hc := Text.notMem_brackets_of_isBlank h
  simp only [Text.brackets, List.mem_cons, List.not_mem_nil, or_false, not_or] at hc
  simp [splitArgumentsFrom, hc, h]

theorem splitArgumentsFrom_blanks (h : ∀ c ∈ gap, Text.isBlank c = true)
    (rest : List Char) :
    splitArgumentsFrom [] .bare 0 (gap ++ rest) = splitArgumentsFrom [] .bare 0 rest := by
  induction gap with
  | nil => rfl
  | cons c gap ih =>
    rw [List.cons_append, splitArgumentsFrom_blank (h c List.mem_cons_self), if_pos rfl]
    exact ih fun d hd ↦ h d (List.mem_cons_of_mem _ hd)

/-- Blanks end an item. -/
theorem splitArgumentsFrom_gap (hitem : item ≠ []) (hgap : gap ≠ [])
    (h : ∀ c ∈ gap, Text.isBlank c = true) (rest : List Char) :
    splitArgumentsFrom item .bare 0 (gap ++ rest) =
      item.reverse :: splitArgumentsFrom [] .bare 0 rest := by
  obtain ⟨c, more, rfl⟩ := List.exists_cons_of_ne_nil hgap
  rw [List.cons_append, splitArgumentsFrom_blank (h c List.mem_cons_self), if_neg hitem,
    splitArgumentsFrom_blanks fun d hd ↦ h d (List.mem_cons_of_mem _ hd)]

end Splitting

/-! ### What items are -/

/-- Items as they are split: none is empty, their blanks stand in literals or brackets, and every item
but the last one closes its literals and brackets. -/
def Itemized : List (List Char) → Prop
  | [] => True
  | item :: rest =>
    item ≠ [] ∧ Text.Solid .bare 0 item ∧
      (rest ≠ [] → Text.Quoting.bare.run item = .bare ∧ Text.bracketRun .bare 0 item = 0) ∧
      Itemized rest

/-- What is split is the text without the blanks that stand outside of literals and brackets. -/
theorem flatten_splitArgumentsFrom (item : List Char) (quoting : Text.Quoting) (depth : Nat)
    (cs : List Char) : (splitArgumentsFrom item quoting depth cs).flatten =
      item.reverse ++ Text.without (Text.Separates quoting depth cs) cs := by
  induction cs generalizing item quoting depth with
  | nil => by_cases h : item = [] <;> simp [splitArgumentsFrom, Text.without, h]
  | cons c rest ih =>
    have hrest : Text.without (fun i ↦ Text.Separates quoting depth (c :: rest) (i + 1)) rest =
        Text.without (Text.Separates (quoting.step c) (Text.bracketStep quoting depth c) rest) rest :=
      Text.without_congr (fun _ ↦ Text.separates_succ) rest
    rw [Text.without_cons, hrest]
    by_cases hsep : Text.Separates quoting depth (c :: rest) 0
    · obtain ⟨hblank, rfl, rfl⟩ := Text.separates_zero.mp hsep
      rw [if_pos hsep, splitArgumentsFrom_blank hblank, (Text.isPlain_of_isBlank hblank).step_bare,
        Text.bracketStep_of_notMem (Text.notMem_brackets_of_isBlank hblank)]
      by_cases hitem : item = []
      · rw [if_pos hitem, ih, hitem]
        rfl
      · rw [if_neg hitem, List.flatten_cons, ih]
        rfl
    · rw [if_neg hsep, splitArgumentsFrom_cons (Text.not_separates_zero.mp hsep), ih,
        List.reverse_cons, List.append_assoc]

/-- Splitting goes on with an item that has been solid so far. -/
theorem itemized_splitArgumentsFrom {before : List Char} (h : Text.Solid .bare 0 before)
    (cs : List Char) :
    Itemized (splitArgumentsFrom before.reverse (.run .bare before) (Text.bracketRun .bare 0 before)
      cs) := by
  induction cs generalizing before with
  | nil =>
    by_cases hbefore : before = []
    · simp [splitArgumentsFrom, Itemized, hbefore]
    · simp [splitArgumentsFrom, Itemized, hbefore, h]
  | cons c rest ih =>
    by_cases hsep : Text.Separates (.run .bare before) (Text.bracketRun .bare 0 before) (c :: rest) 0
    · obtain ⟨hblank, hquoting, hdepth⟩ := Text.separates_zero.mp hsep
      have hmore := @ih [] trivial
      rw [hquoting, hdepth, splitArgumentsFrom_blank hblank]
      by_cases hbefore : before = []
      · rw [if_pos (List.reverse_eq_nil_iff.mpr hbefore)]
        exact hmore
      · rw [if_neg (mt List.reverse_eq_nil_iff.mp hbefore), List.reverse_reverse]
        exact ⟨hbefore, h, fun _ ↦ ⟨hquoting, hdepth⟩, hmore⟩
    · have hgoes := Text.not_separates_zero.mp hsep
      have hsolid : Text.Solid .bare 0 (before ++ [c]) :=
        Text.solid_append.mpr ⟨h, hgoes, trivial⟩
      have hmore := ih hsolid
      rw [Text.Quoting.run_append, Text.bracketRun_append, List.reverse_append] at hmore
      rw [splitArgumentsFrom_cons hgoes]
      exact hmore

/-! ### Items joined again -/

namespace Text

/-- What can stand between two items: one blank or more. -/
structure Gap where
  chars : List Char
  chars_ne : chars ≠ []
  isBlank_chars : ∀ c ∈ chars, isBlank c = true

/-- A single blank. -/
def Gap.single (c : Char) (h : isBlank c = true) : Gap :=
  ⟨[c], List.cons_ne_nil c [], List.forall_mem_singleton.mpr h⟩

/-- Items with a gap before each one but the first. -/
def joinWith (gaps : Nat → Gap) : List (List Char) → List Char
  | [] => []
  | [item] => item
  | item :: rest => item ++ (gaps 0).chars ++ joinWith (fun i ↦ gaps (i + 1)) rest

end Text

/-- Items that are joined with gaps are split into these items. -/
theorem splitArgumentsFrom_joinWith {items : List (List Char)} (h : Itemized items)
    (gaps : Nat → Text.Gap) : splitArgumentsFrom [] .bare 0 (Text.joinWith gaps items) = items := by
  induction items generalizing gaps with
  | nil => rfl
  | cons item rest ih =>
    obtain ⟨hne, hsolid, hcloses, hrest⟩ := h
    have hitem : item.reverse ++ [] ≠ [] := by simpa using hne
    cases rest with
    | nil =>
      have hjoined : Text.joinWith gaps [item] = item ++ [] := (List.append_nil item).symm
      rw [hjoined, splitArgumentsFrom_append hsolid, splitArgumentsFrom, if_neg hitem]
      simp
    | cons next rest =>
      obtain ⟨hquoting, hdepth⟩ := hcloses (List.cons_ne_nil _ _)
      have hjoined : Text.joinWith gaps (item :: next :: rest) = item ++
          ((gaps 0).chars ++ Text.joinWith (fun i ↦ gaps (i + 1)) (next :: rest)) :=
        List.append_assoc ..
      rw [hjoined, splitArgumentsFrom_append hsolid, hquoting, hdepth,
        splitArgumentsFrom_gap hitem (gaps 0).chars_ne (gaps 0).isBlank_chars, ih hrest]
      simp

/-- Items that are joined with one text are joined with the same gap everywhere. -/
theorem Text.joinWith_const (gap : Gap) (items : List (List Char)) :
    joinWith (fun _ ↦ gap) items = gap.chars.intercalate items := by
  induction items with
  | nil => rfl
  | cons item rest ih =>
    cases rest with
    | nil => simp [joinWith]
    | cons next rest =>
      change item ++ gap.chars ++ joinWith (fun _ ↦ gap) (next :: rest) = _
      rw [ih, List.intercalate_cons_cons]

theorem toList_splitArguments (raw : String) :
    (splitArguments raw).map String.toList = splitArgumentsFrom [] .bare 0 raw.toList := by
  simp [splitArguments, Function.comp_def]

theorem splitArguments_ofList {cs : List Char} {items : List String}
    (h : splitArgumentsFrom [] .bare 0 cs = items.map String.toList) :
    splitArguments (String.ofList cs) = items := by
  simp [splitArguments, h, Function.comp_def]

theorem Itemized.ne_nil {items : List (List Char)} (h : Itemized items) : [] ∉ items := by
  induction items with
  | nil => exact List.not_mem_nil
  | cons item rest ih =>
    obtain ⟨hne, -, -, hrest⟩ := h
    simp [Ne.symm hne, ih hrest]

/-- Splitting the arguments of a tag loses nothing and is stable. No item is empty. Joined without
anything between them, the items are the text without the blanks that stand outside of literals and
brackets. Joined with blanks, one or more at each place, they are split into themselves again. -/
theorem splitArguments_stable (raw : String) :
    "" ∉ splitArguments raw ∧
      String.join (splitArguments raw) =
        String.ofList (Text.without (Text.Separates .bare 0 raw.toList) raw.toList) ∧
      splitArguments (" ".intercalate (splitArguments raw)) = splitArguments raw ∧
      ∀ gaps : Nat → Text.Gap,
        splitArguments (String.ofList
          (Text.joinWith gaps ((splitArguments raw).map String.toList))) = splitArguments raw := by
  have hitems : Itemized ((splitArguments raw).map String.toList) := by
    rw [toList_splitArguments]
    exact @itemized_splitArgumentsFrom [] trivial raw.toList
  have hjoin (gaps : Nat → Text.Gap) : splitArguments (String.ofList
      (Text.joinWith gaps ((splitArguments raw).map String.toList))) = splitArguments raw :=
    splitArguments_ofList (splitArgumentsFrom_joinWith hitems gaps)
  refine ⟨?nonempty, ?concatenation, ?spaces, hjoin⟩
  case nonempty =>
    intro h
    exact hitems.ne_nil (List.mem_map_of_mem h)
  case concatenation =>
    apply String.toList_injective
    rw [String.toList_join, List.flatMap_def, toList_splitArguments, flatten_splitArgumentsFrom,
      String.toList_ofList]
    rfl
  case spaces =>
    have hspaces : String.ofList (Text.joinWith (fun _ ↦ Text.Gap.single ' ' rfl)
        ((splitArguments raw).map String.toList)) = " ".intercalate (splitArguments raw) := by
      rw [Text.joinWith_const]
      apply String.toList_injective
      rw [String.toList_ofList, String.toList_intercalate]
      rfl
    rw [← hspaces]
    exact hjoin _

/-- An unclosed literal at the end keeps its blanks; brackets of different kinds close each other. -/
example : splitArguments "a  f(x y] \"b c" = ["a", "f(x y]", "\"b c"] := by
  simp [splitArguments]
  decide

end Stencil
