import Stencil.Proofs.Closing
import Stencil.Proofs.Grammar
import Stencil.Proofs.Layout

/-!
# Token lists of texts

The tokens of a text are runs of literal text and markers of three tokens each, and only a comment
parts two runs of text. Tokens of this kind the walk over them can always group: whatever else is
wrong with a text, its tokens stand where they can.
-/

namespace Stencil

open Piece Segment

/-- Whether tokens are runs of literal text, none of them empty, and markers of three tokens each. -/
inductive Token.Grouped : List Placed → Prop where
  | nil : Grouped []
  | text {s : String} (span : Span) {rest : List Placed} (hs : s ≠ "") (h : Grouped rest) :
      Grouped (⟨.text s, span⟩ :: rest)
  | marker (isOutput : Bool) (code : String) (first middle last : Span) {rest : List Placed}
      (h : Grouped rest) :
      Grouped (⟨opening isOutput, first⟩ :: ⟨.code code, middle⟩ :: ⟨closing isOutput, last⟩ :: rest)

/-- Whether a text is one comment or more, each of them up to the first mark that closes it. -/
def Text.IsCommented (cs : List Char) : Prop :=
  ∃ bodies : List (List Piece), bodies ≠ [] ∧ (∀ body ∈ bodies, closes .comment ∉ body) ∧
    split cs = piecesOf (bodies.map .comment)

/-! ### The tokens of segments -/

namespace Segment

variable {segments : List Segment}

/-- The tokens of segments can be grouped. -/
theorem grouped_tokensOf (h : Cut segments) (p : Point) : Token.Grouped (tokensOf p segments) := by
  induction segments generalizing p with
  | nil => exact .nil
  | cons s segments ih =>
    cases s with
    | text run =>
      obtain ⟨⟨hrun, -⟩, -, hcut⟩ := h
      have hchars : String.ofList (charsOf run) ≠ "" := by
        simpa using charsOf_ne_nil hrun
      exact .text _ hchars (ih hcut _)
    | code isOutput body => exact .marker isOutput _ _ _ _ (ih h.2 _)
    | comment body => exact ih h.2 _

/-- Segments without tokens are comments. -/
theorem exists_comments_of_tokensOf_eq_nil (h : Cut segments) {p : Point}
    (hnone : tokensOf p segments = []) :
    ∃ bodies : List (List Piece), (∀ body ∈ bodies, closes .comment ∉ body) ∧
      segments = bodies.map .comment := by
  induction segments generalizing p with
  | nil => exact ⟨[], by simp⟩
  | cons s segments ih =>
    cases s with
    | text run => cases hnone
    | code isOutput body => cases hnone
    | comment body =>
      obtain ⟨bodies, hbodies, rfl⟩ := ih h.2 hnone
      exact ⟨body :: bodies, by simpa using ⟨h.1, hbodies⟩, rfl⟩

/-- Two runs of text that follow one another have comments between them, and nothing else. -/
theorem exists_comments_between (h : Cut segments) {p : Point} (before : List Placed)
    {after : List Placed} {s t : String} {first second : Span}
    (htokens : tokensOf p segments = before ++ ⟨.text s, first⟩ :: ⟨.text t, second⟩ :: after) :
    ∃ front back, ∃ bodies : List (List Piece),
      segments = front ++ bodies.map .comment ++ back ∧
      bodies ≠ [] ∧ (∀ body ∈ bodies, closes .comment ∉ body) ∧
      first.stop = p.advance (charsOf (piecesOf front)) ∧
      second.start = p.advance (charsOf (piecesOf (front ++ bodies.map .comment))) := by
  obtain ⟨front, s', later, own, rfl, -, hfirst, hlater⟩ :=
    exists_of_tokensOf_eq before htokens trivial
  have hcut := h.of_append
  cases s' with
  | code isOutput body => cases isOutput <;> cases hfirst
  | comment body => cases hfirst
  | text run =>
    obtain ⟨-, htext, hcut⟩ := hcut
    obtain ⟨hrun, rfl⟩ := List.cons.inj hfirst
    -- What comes before the second run emits nothing, but is there.
    obtain ⟨between, s', back, own, rfl, hnone, hsecond, -⟩ :=
      exists_of_tokensOf_eq [] hlater trivial
    obtain ⟨bodies, hbodies, rfl⟩ := exists_comments_of_tokensOf_eq_nil hcut.of_append_left hnone
    cases s' with
    | code isOutput body => cases isOutput <;> cases hsecond
    | comment body => cases hsecond
    | text more =>
      have hne : bodies ≠ [] := by
        rintro rfl
        cases htext
      refine ⟨front ++ [.text run], .text more :: back, bodies, by simp, hne, hbodies, ?_, ?_⟩
      · have hstop := congrArg (·.span.stop) hrun
        simpa [Span.covering, piecesOf_append, pieces] using hstop.symm
      · have hstart := congrArg (·.span.start) (List.cons.inj hsecond).1
        simpa [Span.covering, piecesOf_append, pieces, Segment.chars] using hstart.symm

end Segment

/-! ### Texts -/

/-- Between two runs of text that follow one another in the tokens of a text there are comments. -/
theorem Token.isCommented_between {source : String} {tokens : List Placed}
    (h : ofText source.toList = .ok tokens) (before : List Placed) {after : List Placed}
    {s t : String} {first second : Span}
    (htokens : tokens = before ++ ⟨.text s, first⟩ :: ⟨.text t, second⟩ :: after) :
    Text.IsCommented (Text.slice source first.stop.offset second.start.offset).toList := by
  obtain ⟨segments, hcut, hpieces, rfl⟩ := exists_of_walk h
  obtain ⟨front, back, bodies, rfl, hne, hbodies, hstop, hstart⟩ :=
    exists_comments_between hcut before htokens
  have hsource : source = String.ofList (charsOf (piecesOf front) ++
      charsOf (piecesOf (bodies.map .comment)) ++ charsOf (piecesOf back)) := by
    rw [← charsOf_append, ← charsOf_append, ← piecesOf_append, ← piecesOf_append, hpieces,
      charsOf_split, String.ofList_toList]
  have hslice := slice_pointAfter (charsOf (piecesOf front))
    (charsOf (piecesOf (bodies.map .comment))) (charsOf (piecesOf back))
  rw [← hsource, ← charsOf_append, ← piecesOf_append] at hslice
  have hapart : Apart (piecesOf (front ++ bodies.map .comment ++ back)) :=
    hpieces ▸ apart_split source.toList
  rw [piecesOf_append, piecesOf_append] at hapart
  rw [hstop, hstart]
  refine ⟨bodies, hne, hbodies, ?_⟩
  change split (Text.slice source (pointAfter _).offset (pointAfter _).offset).toList = _
  rw [hslice, String.toList_ofList, hapart.of_append.1.of_append.2.split_charsOf]

/-! ### Grouping -/

namespace Node

variable {kindOf : String → Option TagKind} {progress : Progress} {code : String} {span : Span}

theorem takeOutput_ne_invalidTokenSequence (start : Point) (index : Nat) :
    takeOutput progress code start span ≠ .error (.invalidTokenSequence index) := by
  unfold takeOutput
  split <;> simp [SyntaxFault.error]

theorem takeEnd_ne_invalidTokenSequence (name : String) (index : Nat) :
    takeEnd progress name span ≠ .error (.invalidTokenSequence index) := by
  unfold takeEnd
  split
  · simp
  · simp
  · split <;> simp

theorem takeTag_ne_invalidTokenSequence (index : Nat) :
    takeTag kindOf progress code span ≠ .error (.invalidTokenSequence index) := by
  unfold takeTag
  dsimp only
  split
  · simp
  · split
    · simp
    · simp
    · exact takeEnd_ne_invalidTokenSequence _ index

/-- The walk finds each token of grouped tokens where it can stand. -/
theorem walk_ne_invalidTokenSequence {tokens : List Placed} (h : Token.Grouped tokens)
    (progress : Progress) (position index : Nat) :
    walk kindOf progress position tokens ≠ .error (.invalidTokenSequence index) := by
  induction h generalizing progress position with
  | nil =>
    obtain ⟨nodes, _ | ⟨block, blocks⟩⟩ := progress
    · simp [walk_nil]
    · simp [walk_nil_of_open]
  | text span hs h ih =>
    rw [walk_text]
    exact ih _ _
  | @marker isOutput code first middle last rest h ih =>
    cases isOutput with
    | true =>
      change walk kindOf progress position
        (⟨.outputOpen, first⟩ :: ⟨.code code, middle⟩ :: ⟨.outputClose, last⟩ :: rest) ≠ _
      rw [walk_outputMarker]
      cases htake : takeOutput progress code middle.start (first.through last) with
      | ok next => exact ih next (position + 3)
      | error e =>
        rintro ⟨⟩
        exact takeOutput_ne_invalidTokenSequence _ _ htake
    | false =>
      change walk kindOf progress position
        (⟨.tagOpen, first⟩ :: ⟨.code code, middle⟩ :: ⟨.tagClose, last⟩ :: rest) ≠ _
      rw [walk_tagMarker]
      cases htake : takeTag kindOf progress code (first.through last) with
      | ok next => exact ih next (position + 3)
      | error e =>
        rintro ⟨⟩
        exact takeTag_ne_invalidTokenSequence _ htake

/-- No text has tokens that stand where they cannot. -/
theorem parse_ne_invalidTokenSequence (source : String) (index : Nat) :
    parse kindOf source ≠ .error (.invalidTokenSequence index) := by
  unfold parse
  cases htokens : Token.ofText source.toList with
  | error e =>
    obtain ⟨read, m, rest, earlier, -, -, rfl⟩ := Token.Opens.exists_of_ofText_eq_error htokens
    simp [Except.bind, Token.unclosed]
  | ok tokens =>
    obtain ⟨segments, hcut, -, rfl⟩ := exists_of_walk htokens
    exact walk_ne_invalidTokenSequence (grouped_tokensOf hcut _) _ _ index

end Node

/-- The tokens of a text can be grouped: they are runs of literal text, none of them empty, and
markers of three tokens each, and between two runs of text that follow one another there are comments
in the text. So no text and no registry make the grouping fail for a token that cannot stand where it
does. -/
theorem Token.grouped_of_ofText (source : String) :
    (∀ tokens, ofText source.toList = .ok tokens →
      Grouped tokens ∧
      ∀ before s first t second after,
        tokens = before ++ ⟨.text s, first⟩ :: ⟨.text t, second⟩ :: after →
        Text.IsCommented (Text.slice source first.stop.offset second.start.offset).toList) ∧
    ∀ (r : Registry) index,
      Node.parse r.tagKind? source ≠ .error (.invalidTokenSequence index) := by
  refine ⟨?_, fun r index ↦ Node.parse_ne_invalidTokenSequence source index⟩
  intro tokens h
  obtain ⟨segments, hcut, -, hsegments⟩ := exists_of_walk h
  constructor
  · rw [hsegments]
    exact grouped_tokensOf hcut _
  · intro before s first t second after htokens
    exact isCommented_between h before htokens

/-- Two comments, one of them with a line feed in it, part two runs of text. -/
theorem Token.exists_isCommented_between_runs :
    let source := "a\x7b##\x7d\x7b#\n#\x7dé"
    ∃ first second, ofText source.toList = .ok [⟨.text "a", first⟩, ⟨.text "é", second⟩] ∧
      Grouped [⟨.text "a", first⟩, ⟨.text "é", second⟩] ∧
      Text.IsCommented (Text.slice source first.stop.offset second.start.offset).toList := by
  intro source
  have htokens : ofText source.toList = .ok [⟨.text "a", ⟨.origin, ⟨1, 2, 1⟩⟩⟩,
      ⟨.text "é", ⟨⟨2, 3, 10⟩, ⟨2, 4, 12⟩⟩⟩] := by
    decide +kernel
  obtain ⟨hgrouped, hparted⟩ := (grouped_of_ofText source).1 _ htokens
  exact ⟨_, _, htokens, hgrouped, hparted [] _ _ _ _ _ rfl⟩

end Stencil
