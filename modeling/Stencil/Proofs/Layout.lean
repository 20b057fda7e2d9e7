import Mathlib.Data.String.Basic
import Stencil.Proofs.Segments

/-!
# Tokens in their text

Nothing of a template text is lost: its tokens lie in it one after the other, each where its span
says and as it is written, and what lies between them is comments. Every point of a span is the one
that reading the text up to there leads to.
-/

namespace Stencil

open Piece Segment

/-! ### Parts of a text -/

/-- The part of a text from one byte offset up to another one. -/
def Text.slice (source : String) (start stop : Nat) : String :=
  String.Pos.Raw.extract source ⟨start⟩ ⟨stop⟩

/-- The point that reading a text from its beginning leads to. -/
def pointAfter (cs : List Char) : Point := Point.origin.advance cs

theorem pointAfter_append (a b : List Char) :
    pointAfter (a ++ b) = (pointAfter a).advance b :=
  Point.advance_append _ a b

theorem offset_pointAfter (cs : List Char) : (pointAfter cs).offset = String.utf8Len cs := by
  rw [pointAfter, Point.offset_advance, String.utf8ByteSize_ofList]
  exact Nat.zero_add _

/-- The slice between the points before and after a part of a text is that part. -/
theorem slice_pointAfter (before part after : List Char) :
    Text.slice (String.ofList (before ++ part ++ after)) (pointAfter before).offset
      (pointAfter (before ++ part)).offset = String.ofList part := by
  rw [offset_pointAfter, offset_pointAfter, String.utf8Len_append]
  exact String.extract_of_valid before part after

/-- A point after a part of a text is where reading the slice up to its offset leads to. -/
theorem pointAfter_eq_advance_slice (before after : List Char) :
    pointAfter before = Point.origin.advance (Text.slice (String.ofList (before ++ after)) 0
      (pointAfter before).offset).toList := by
  have hslice := slice_pointAfter [] before after
  rw [List.nil_append] at hslice
  have hbegin : (pointAfter []).offset = 0 := rfl
  rw [← hbegin, hslice, String.toList_ofList]
  rfl

/-! ### Layouts -/

/-- Whether a text is comments, one after the other. -/
def IsComments (cs : List Char) : Prop :=
  ∃ bodies : List (List Char), cs = bodies.flatMap fun body ↦
    Marker.comment.opener ++ body ++ Marker.comment.closer

/-- How tokens lie in a text that begins at a point: before the first token, between tokens and after
the last one there are comments only. -/
inductive Layout : Point → List Char → List Placed → Prop where
  | done {p : Point} {gap : List Char} (hgap : IsComments gap) : Layout p gap []
  | token {p : Point} {gap : List Char} (hgap : IsComments gap) (t : Token) {rest : List Char}
      {tokens : List Placed} (h : Layout (p.advance (gap ++ t.written.toList)) rest tokens) :
      Layout p (gap ++ t.written.toList ++ rest)
        (⟨t, .covering (p.advance gap) t.written.toList⟩ :: tokens)

private theorem isComments_nil : IsComments [] := ⟨[], rfl⟩

private theorem isComments_cons (body : List Char) {gap : List Char} (h : IsComments gap) :
    IsComments (Marker.comment.opener ++ body ++ Marker.comment.closer ++ gap) := by
  obtain ⟨bodies, rfl⟩ := h
  exact ⟨body :: bodies, rfl⟩

namespace Layout

/-- A token at the beginning of a text. -/
private theorem cons (p : Point) (t : Token) {written rest : List Char} {tokens : List Placed}
    (hwritten : t.written.toList = written) (h : Layout (p.advance written) rest tokens) :
    Layout p (written ++ rest) (⟨t, .covering p written⟩ :: tokens) := by
  subst hwritten
  exact .token isComments_nil t h

/-- A comment at the beginning of a text. -/
private theorem comment {p : Point} (body : List Char) {rest : List Char} {tokens : List Placed}
    (h : Layout (p.advance (Marker.comment.opener ++ body ++ Marker.comment.closer)) rest tokens) :
    Layout p (Marker.comment.opener ++ body ++ Marker.comment.closer ++ rest) tokens := by
  cases h with
  | done hgap => exact .done (isComments_cons body hgap)
  | token hgap t h =>
    rw [← Point.advance_append, ← List.append_assoc, ← List.append_assoc]
    rw [← Point.advance_append, ← List.append_assoc] at h
    exact .token (isComments_cons body hgap) t h

/-- The tokens of segments lie in their text. -/
theorem tokensOf (p : Point) (segments : List Segment) :
    Layout p (charsOf (piecesOf segments)) (Segment.tokensOf p segments) := by
  induction segments generalizing p with
  | nil => exact .done isComments_nil
  | cons s segments ih =>
    rw [piecesOf_cons, charsOf_append, Segment.tokensOf]
    have hrest := ih (p.advance s.chars)
    cases s with
    | text run => exact .cons p (.text _) String.toList_ofList hrest
    | code isOutput body =>
      have hopening : (Token.opening isOutput).written.toList =
          (Token.markerOf isOutput).opener := by
        cases isOutput <;> rfl
      have hclosing : (Token.closing isOutput).written.toList =
          (Token.markerOf isOutput).closer := by
        cases isOutput <;> rfl
      have hchars : (Segment.code isOutput body).chars = (Token.markerOf isOutput).opener ++
          (charsOf body ++ (Token.markerOf isOutput).closer) := by
        simp [Segment.chars, pieces, Piece.chars]
      change Layout p ((Segment.code isOutput body).chars ++ _) _
      rw [hchars, List.append_assoc, List.append_assoc, Point.advance_append, Point.advance_append]
      rw [hchars, Point.advance_append, Point.advance_append] at hrest
      exact .cons p _ hopening (.cons _ (.code _) String.toList_ofList (.cons _ _ hclosing hrest))
    | comment body =>
      have hchars : (Segment.comment body).chars =
          Marker.comment.opener ++ charsOf body ++ Marker.comment.closer := by
        simp [Segment.chars, pieces, Piece.chars]
      change Layout p ((Segment.comment body).chars ++ _) _
      rw [hchars]
      rw [hchars] at hrest
      exact .comment (charsOf body) hrest

/-! ### What a layout tells -/

variable {p : Point} {cs : List Char} {tokens : List Placed}

/-- A token of a layout is a part of the text, at the place of that part. -/
private theorem exists_of_mem (h : Layout p cs tokens) {t : Placed} (ht : t ∈ tokens) :
    ∃ before after, cs = before ++ t.token.written.toList ++ after ∧
      t.span = .covering (p.advance before) t.token.written.toList := by
  induction h with
  | done hgap => cases ht
  | @token p gap hgap u rest tokens h ih =>
    rcases List.mem_cons.mp ht with rfl | ht
    · exact ⟨gap, rest, rfl, rfl⟩
    · obtain ⟨before, after, rfl, hspan⟩ := ih ht
      refine ⟨gap ++ u.written.toList ++ before, after, by simp, ?_⟩
      rw [hspan, ← Point.advance_append]

/-- The tokens of a layout do not overlap. -/
private theorem pairwise (h : Layout p cs tokens) :
    tokens.Pairwise fun a b ↦ a.span.stop.offset ≤ b.span.start.offset := by
  induction h with
  | done hgap => exact .nil
  | @token p gap hgap u rest tokens h ih =>
    refine .cons ?_ ih
    intro t ht
    obtain ⟨before, after, -, hspan⟩ := h.exists_of_mem ht
    rw [hspan, Span.covering, Span.covering, ← Point.advance_append]
    dsimp only
    rw [Point.offset_advance _ before]
    omega

end Layout

/-- What of a text lies before the first of some tokens, between them and after the last one, from an
offset on. -/
def gaps (source : String) (start : Nat) : List Placed → List String
  | [] => [Text.slice source start source.utf8ByteSize]
  | t :: rest =>
    Text.slice source start t.span.start.offset :: gaps source t.span.stop.offset rest

namespace Layout

/-- The gaps of a layout are comments, and if there are none the tokens make up the text. -/
private theorem gaps_comments {before cs : List Char} {tokens : List Placed}
    (h : Layout (pointAfter before) cs tokens) :
    let found := gaps (String.ofList (before ++ cs)) (pointAfter before).offset tokens
    (∀ gap ∈ found, IsComments gap.toList) ∧
      ((∀ gap ∈ found, gap = "") → tokens.flatMap (fun t ↦ t.token.written.toList) = cs) := by
  generalize hp : pointAfter before = p at h
  induction h generalizing before with
  | @done p gap hgap =>
    subst hp
    have hslice : Text.slice (String.ofList (before ++ gap)) (pointAfter before).offset
        (String.ofList (before ++ gap)).utf8ByteSize = String.ofList gap := by
      have hslice := slice_pointAfter before gap []
      rwa [List.append_nil, offset_pointAfter (before ++ gap), ← String.utf8ByteSize_ofList]
        at hslice
    rw [gaps, hslice]
    constructor
    · intro other hmem
      rw [List.mem_singleton.mp hmem, String.toList_ofList]
      exact hgap
    · intro hnone
      have hempty := hnone _ (List.mem_singleton_self _)
      exact (String.ofList_eq_empty_iff.mp hempty).symm
  | @token p gap hgap t rest tokens h ih =>
    subst hp
    have hstop : (pointAfter before).advance (gap ++ t.written.toList) =
        pointAfter (before ++ gap ++ t.written.toList) := by
      rw [← pointAfter_append, List.append_assoc]
    obtain ⟨hcomments, htext⟩ := ih hstop.symm
    have hslice := slice_pointAfter before gap (t.written.toList ++ rest)
    have hsource : before ++ (gap ++ t.written.toList ++ rest) =
        before ++ gap ++ t.written.toList ++ rest := by
      simp
    rw [gaps, Span.covering, ← pointAfter_append, ← pointAfter_append, hsource]
    rw [← List.append_assoc] at hslice
    rw [hstop] at hcomments htext
    dsimp only
    rw [hslice]
    constructor
    · intro other hmem
      rcases List.mem_cons.mp hmem with rfl | hmem
      · rw [String.toList_ofList]
        exact hgap
      · exact hcomments other hmem
    · intro hnone
      have hempty : gap = [] := String.ofList_eq_empty_iff.mp (hnone _ List.mem_cons_self)
      rw [List.flatMap_cons, htext fun other hmem ↦ hnone other (List.mem_cons_of_mem _ hmem),
        hempty, List.nil_append]

private theorem eq_nil_of_isComments {cs : List Char} (h : IsComments cs)
    (hnone : ¬ Marker.comment.opener <:+: cs) : cs = [] := by
  obtain ⟨bodies, rfl⟩ := h
  cases bodies with
  | nil => rfl
  | cons body bodies =>
    refine absurd (List.IsPrefix.isInfix ?_) hnone
    rw [List.flatMap_cons, List.append_assoc, List.append_assoc]
    exact List.prefix_append _ _

/-- Where nothing opens a comment the tokens make up the text. -/
private theorem flatMap_written {p : Point} {cs : List Char} {tokens : List Placed}
    (h : Layout p cs tokens) (hnone : ¬ Marker.comment.opener <:+: cs) :
    tokens.flatMap (fun t ↦ t.token.written.toList) = cs := by
  induction h with
  | done hgap => exact (eq_nil_of_isComments hgap hnone).symm
  | @token p gap hgap t rest tokens h ih =>
    have hgap : gap = [] := by
      refine eq_nil_of_isComments hgap fun hpart ↦ hnone (hpart.trans ?_)
      rw [List.append_assoc]
      exact (List.prefix_append _ _).isInfix
    rw [List.flatMap_cons, ih fun hpart ↦ hnone (hpart.trans (List.suffix_append _ _).isInfix),
      hgap, List.nil_append]

end Layout

/-- The tokens of a text lie in it. -/
theorem Layout.of_ofText {source : List Char} {tokens : List Placed}
    (h : Token.ofText source = .ok tokens) : Layout .origin source tokens := by
  obtain ⟨segments, -, hpieces, rfl⟩ := exists_of_walk h
  have hlayout := Layout.tokensOf .origin segments
  have hchars : charsOf (piecesOf segments) = source := by
    rw [hpieces]
    exact Piece.flatMap_chars_split source
  rwa [hchars] at hlayout

/-- What it means that tokens lose nothing of a text. -/
structure Lossless (source : String) (tokens : List Placed) : Prop where
  /-- The tokens follow one another. -/
  ordered : tokens.Pairwise fun a b ↦ a.span.stop.offset ≤ b.span.start.offset
  /-- A token is written as the slice of the text between the offsets of its span. -/
  written : ∀ t ∈ tokens, t.span.start.offset ≤ t.span.stop.offset ∧
    Text.slice source t.span.start.offset t.span.stop.offset = t.token.written
  /-- A point is where reading the text up to its offset leads to. -/
  points : ∀ t ∈ tokens, ∀ p ∈ [t.span.start, t.span.stop],
    p = Point.origin.advance (Text.slice source 0 p.offset).toList
  /-- What lies before, between and after the tokens is comments. -/
  comments : ∀ gap ∈ gaps source 0 tokens, IsComments gap.toList
  /-- Without comments the tokens as written make up the text. -/
  whole : (∀ gap ∈ gaps source 0 tokens, gap = "") →
    tokens.flatMap (fun t ↦ t.token.written.toList) = source.toList
  /-- There are no comments where nothing opens one. -/
  whole_of_not_infix : ¬ Marker.comment.opener <:+: source.toList →
    tokens.flatMap (fun t ↦ t.token.written.toList) = source.toList

/-- The tokens of a text lose nothing of it. -/
theorem Token.lossless_of_ofText {source : String} {tokens : List Placed}
    (h : Token.ofText source.toList = .ok tokens) : Lossless source tokens := by
  have hlayout := Layout.of_ofText h
  have hnothing : pointAfter [] = Point.origin := rfl
  rw [← hnothing] at hlayout
  obtain ⟨hcomments, htext⟩ := hlayout.gaps_comments
  rw [List.nil_append, String.ofList_toList] at hcomments htext
  have hslice (a b c : List Char) (hcut : source.toList = a ++ b ++ c) :
      Text.slice source (pointAfter a).offset (pointAfter (a ++ b)).offset = String.ofList b := by
    rw [← slice_pointAfter a b c, ← hcut, String.ofList_toList]
  have hplace (t : Placed) (ht : t ∈ tokens) : ∃ before after,
      source.toList = before ++ t.token.written.toList ++ after ∧
      t.span.start = pointAfter before ∧
      t.span.stop = pointAfter (before ++ t.token.written.toList) := by
    obtain ⟨before, after, hsource, hspan⟩ := hlayout.exists_of_mem ht
    rw [hspan]
    exact ⟨before, after, hsource, rfl, (pointAfter_append _ _).symm⟩
  constructor
  case ordered => exact hlayout.pairwise
  case comments => exact hcomments
  case whole => exact htext
  case whole_of_not_infix => exact hlayout.flatMap_written
  case written =>
    intro t ht
    obtain ⟨before, after, hsource, hstart, hstop⟩ := hplace t ht
    constructor
    · rw [hstart, hstop, offset_pointAfter, offset_pointAfter, String.utf8Len_append]
      exact Nat.le_add_right _ _
    · rw [hstart, hstop, hslice before _ after hsource, String.ofList_toList]
  case points =>
    have hpoint (a c : List Char) (hcut : source.toList = a ++ c) :
        pointAfter a = Point.origin.advance
          (Text.slice source 0 (pointAfter a).offset).toList := by
      have hinitial := hslice [] a c hcut
      rw [List.nil_append] at hinitial
      change pointAfter a = pointAfter (Text.slice source (pointAfter []).offset _).toList
      rw [hinitial, String.toList_ofList]
    intro t ht p hp
    obtain ⟨before, after, hsource, hstart, hstop⟩ := hplace t ht
    rcases List.mem_pair.mp hp with rfl | rfl
    · rw [hstart]
      exact hpoint before _ (by rw [hsource, List.append_assoc])
    · rw [hstop]
      exact hpoint _ after hsource

/-- A text with comments before, between and after its tokens, a line feed inside a comment, empty
code, and characters of more than one byte. -/
private def commentedText : String :=
  "\x7b# a\n #\x7dé\x7b#\x7d#\x7d\x7b##\x7d\x7b\x7b\"\x7d\x7d\"\x7d\x7dß\x7b%%\x7d\x7b# b #\x7d"

/-- The tokens of a text with comments lose nothing of it. -/
theorem Token.exists_lossless_commentedText :
    ∃ tokens, Token.ofText commentedText.toList = .ok tokens ∧ Lossless commentedText tokens := by
  have hok : (Token.ofText commentedText.toList).isOk = true := by decide +kernel
  cases htokens : Token.ofText commentedText.toList with
  | error e =>
    rw [htokens] at hok
    cases hok
  | ok tokens => exact ⟨tokens, rfl, lossless_of_ofText htokens⟩

end Stencil
