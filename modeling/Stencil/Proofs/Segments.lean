import Stencil.Token.Scan

/-!
# Segments

A template text falls into segments: runs of literal text, markers with their code, and comments.
The pieces of a text are those of its segments, and the walk over them emits the tokens of one
segment after the other. Every walk that succeeds has read such segments.
-/

namespace Stencil

namespace Piece

/-- The characters of some pieces. -/
def charsOf (pieces : List Piece) : List Char := pieces.flatMap chars

@[simp] theorem charsOf_nil : charsOf [] = [] := rfl

@[simp] theorem charsOf_cons (piece : Piece) (rest : List Piece) :
    charsOf (piece :: rest) = piece.chars ++ charsOf rest := rfl

@[simp] theorem charsOf_append (a b : List Piece) : charsOf (a ++ b) = charsOf a ++ charsOf b :=
  List.flatMap_append

theorem chars_ne_nil (piece : Piece) : piece.chars ≠ [] := by
  cases piece with
  | opens m => cases m <;> exact List.cons_ne_nil _ _
  | closes m => cases m <;> exact List.cons_ne_nil _ _
  | char c => exact List.cons_ne_nil _ _

theorem charsOf_ne_nil {pieces : List Piece} (h : pieces ≠ []) : charsOf pieces ≠ [] := by
  cases pieces with
  | nil => exact absurd rfl h
  | cons piece rest => simp [chars_ne_nil]

end Piece

open Piece

/-- A part of a template text that the walk reads in one mode. -/
inductive Segment where
  /-- Literal text. -/
  | text (run : List Piece)
  /-- An output or tag marker with what stands between its ends. -/
  | code (isOutput : Bool) (body : List Piece)
  /-- A comment with what stands between its ends. -/
  | comment (body : List Piece)

namespace Segment

/-- Whether no mark opens a marker. -/
def OpensNothing (run : List Piece) : Prop := ∀ m, Piece.opens m ∉ run

/-- Whether no piece of some code, read in a quoting state, ends its marker. -/
def Encloses (isOutput : Bool) : Text.Quoting → List Piece → Prop
  | _, [] => True
  | quoting, piece :: rest =>
    ¬ (piece = .closes (Token.markerOf isOutput) ∧ quoting = .bare) ∧
      Encloses isOutput (quoting.run piece.chars) rest

/-- The pieces of a segment. -/
def pieces : Segment → List Piece
  | .text run => run
  | .code isOutput body =>
    .opens (Token.markerOf isOutput) :: (body ++ [.closes (Token.markerOf isOutput)])
  | .comment body => .opens .comment :: (body ++ [.closes .comment])

/-- The characters of a segment. -/
def chars (s : Segment) : List Char := charsOf s.pieces

/-- The segment of a marker with what stands between its ends. -/
def ofMarker : Marker → List Piece → Segment
  | .output, body => .code true body
  | .tag, body => .code false body
  | .comment, body => .comment body

theorem ofMarker_markerOf (isOutput : Bool) (body : List Piece) :
    ofMarker (Token.markerOf isOutput) body = .code isOutput body := by
  cases isOutput <;> rfl

theorem pieces_ofMarker (m : Marker) (body : List Piece) :
    (ofMarker m body).pieces = opens m :: (body ++ [closes m]) := by
  cases m <;> rfl

/-- The tokens of a segment that begins at a point. A comment leaves none. -/
def tokens (p : Point) : Segment → List Placed
  | .text run => [⟨.text (String.ofList (charsOf run)), .covering p (charsOf run)⟩]
  | .code isOutput body =>
    let start := p.advance (Token.markerOf isOutput).opener
    let stop := start.advance (charsOf body)
    [⟨Token.opening isOutput, .covering p (Token.markerOf isOutput).opener⟩,
      ⟨.code (String.ofList (charsOf body)), .covering start (charsOf body)⟩,
      ⟨Token.closing isOutput, .covering stop (Token.markerOf isOutput).closer⟩]
  | .comment _ => []

/-- Whether a segment ends where the walk lets it end. -/
def WellFormed : Segment → Prop
  | .text run => run ≠ [] ∧ OpensNothing run
  | .code isOutput body =>
    Encloses isOutput .bare body ∧ Text.Quoting.bare.run (charsOf body) = .bare
  | .comment body => Piece.closes .comment ∉ body

/-- Whether some segments begin with literal text. -/
def beginWithText : List Segment → Bool
  | .text _ :: _ => true
  | _ => false

/-- Whether segments are as the walk cuts them: each ends where it should, and literal text does not
go on in another segment. -/
def Cut : List Segment → Prop
  | [] => True
  | .text run :: rest => (text run).WellFormed ∧ beginWithText rest = false ∧ Cut rest
  | s :: rest => s.WellFormed ∧ Cut rest

/-- The tokens of some segments, of which the first begins at a point. -/
def tokensOf : Point → List Segment → List Placed
  | _, [] => []
  | p, s :: rest => s.tokens p ++ tokensOf (p.advance s.chars) rest

/-- The pieces of some segments. -/
def piecesOf (segments : List Segment) : List Piece := segments.flatMap pieces

@[simp] theorem piecesOf_nil : piecesOf [] = [] := rfl

@[simp] theorem piecesOf_cons (s : Segment) (rest : List Segment) :
    piecesOf (s :: rest) = s.pieces ++ piecesOf rest := rfl

theorem piecesOf_append (a b : List Segment) : piecesOf (a ++ b) = piecesOf a ++ piecesOf b :=
  List.flatMap_append

theorem tokensOf_append (p : Point) (a b : List Segment) :
    tokensOf p (a ++ b) = tokensOf p a ++ tokensOf (p.advance (charsOf (piecesOf a))) b := by
  induction a generalizing p with
  | nil => rfl
  | cons s rest ih =>
    rw [List.cons_append, tokensOf, tokensOf, ih, piecesOf_cons, charsOf_append,
      Point.advance_append, List.append_assoc]
    rfl

theorem Cut.of_append_left {front back : List Segment} (h : Cut (front ++ back)) : Cut front := by
  induction front with
  | nil => trivial
  | cons s front ih =>
    cases s with
    | text run =>
      refine ⟨h.1, ?_, ih h.2.2⟩
      have hnext := h.2.1
      cases front with
      | nil => rfl
      | cons t front => cases t <;> exact hnext
    | code isOutput body => exact ⟨h.1, ih h.2⟩
    | comment body => exact ⟨h.1, ih h.2⟩

theorem Cut.of_append {front back : List Segment} (h : Cut (front ++ back)) : Cut back := by
  induction front with
  | nil => exact h
  | cons s front ih =>
    cases s with
    | text run => exact ih h.2.2
    | code isOutput body => exact ih h.2
    | comment body => exact ih h.2

/-- Segments that do not begin with text can follow any others. -/
theorem Cut.append {a b : List Segment} (ha : Cut a) (hb : Cut b) (htext : beginWithText b = false) :
    Cut (a ++ b) := by
  induction a with
  | nil => exact hb
  | cons s rest ih =>
    cases s with
    | text run =>
      obtain ⟨hrun, hrest, hcut⟩ := ha
      refine ⟨hrun, ?_, ih hcut⟩
      cases rest with
      | nil => exact htext
      | cons t rest => cases t <;> exact hrest
    | code isOutput body => exact ⟨ha.1, ih ha.2⟩
    | comment body => exact ⟨ha.1, ih ha.2⟩

/-! ### Reading a segment -/

private theorem walk_run {run : List Piece} (h : OpensNothing run) (start here : Point)
    (read : List Char) (rest : List Piece) :
    Token.walk (.text start read) here (run ++ rest) =
      Token.walk (.text start ((charsOf run).reverse ++ read)) (here.advance (charsOf run)) rest := by
  induction run generalizing here read with
  | nil => rfl
  | cons piece run ih =>
    have hrun : OpensNothing run := fun m hm ↦ h m (List.mem_cons_of_mem _ hm)
    have hpiece : Token.walk (.text start read) here (piece :: (run ++ rest)) =
        Token.walk (.text start (piece.chars.reverse ++ read)) (here.advance piece.chars)
          (run ++ rest) := by
      cases piece with
      | opens m => exact absurd List.mem_cons_self (h m)
      | closes m => rfl
      | char c => rfl
    rw [List.cons_append, hpiece, ih hrun, charsOf_cons, List.reverse_append, List.append_assoc,
      Point.advance_append]

private theorem walk_opens_code (isOutput : Bool) (start here : Point) (read : List Char)
    (rest : List Piece) :
    Token.walk (.text start read) here (opens (Token.markerOf isOutput) :: rest) =
      let after := here.advance (Token.markerOf isOutput).opener
      (Token.walk (.code isOutput here after [] .bare) after rest).map fun tokens ↦
        Token.textRun start read ++ ⟨Token.opening isOutput, ⟨here, after⟩⟩ :: tokens := by
  cases isOutput <;> rfl

private theorem walk_opens_comment (start here : Point) (read : List Char) (rest : List Piece) :
    Token.walk (.text start read) here (opens .comment :: rest) =
      (Token.walk (.comment here) (here.advance Marker.comment.opener) rest).map
        (Token.textRun start read ++ ·) := rfl

private theorem markerOf_or_comment (m : Marker) :
    (∃ isOutput, m = Token.markerOf isOutput) ∨ m = .comment := by
  cases m with
  | output => exact .inl ⟨true, rfl⟩
  | tag => exact .inl ⟨false, rfl⟩
  | comment => exact .inr rfl

/-- Whether some pieces end a run of literal text. -/
def EndsText (rest : List Piece) : Prop := rest = [] ∨ ∃ m more, rest = opens m :: more

/-- A run of literal text is emitted before what ends it. -/
private theorem walk_flush {rest : List Piece} (h : EndsText rest) (start here : Point)
    (read : List Char) :
    Token.walk (.text start read) here rest =
      (Token.walk (.text here []) here rest).map (Token.textRun start read ++ ·) := by
  rcases h with rfl | ⟨m, more, rfl⟩
  · simp [Token.walk_text_nil, Token.textRun, Except.map]
  · rcases markerOf_or_comment m with ⟨isOutput, rfl⟩ | rfl
    · rw [walk_opens_code, walk_opens_code]
      dsimp only
      cases Token.walk (.code isOutput here _ [] .bare) _ more <;> rfl
    · rw [walk_opens_comment, walk_opens_comment]
      cases Token.walk (.comment here) _ more <;> rfl

private theorem walk_body {isOutput : Bool} {body : List Piece} {quoting : Text.Quoting}
    (h : Encloses isOutput quoting body) (opened start here : Point) (read : List Char)
    (rest : List Piece) :
    Token.walk (.code isOutput opened start read quoting) here (body ++ rest) =
      Token.walk (.code isOutput opened start ((charsOf body).reverse ++ read)
        (quoting.run (charsOf body))) (here.advance (charsOf body)) rest := by
  induction body generalizing here read quoting with
  | nil => rfl
  | cons piece body ih =>
    rw [Encloses] at h
    rw [List.cons_append, Token.walk_code_cons, if_neg h.1, ih h.2, charsOf_cons, List.reverse_append,
      List.append_assoc, Point.advance_append, Text.Quoting.run_append]

private theorem walk_commentBody {body : List Piece} (h : closes .comment ∉ body)
    (opened here : Point) (rest : List Piece) :
    Token.walk (.comment opened) here (body ++ rest) =
      Token.walk (.comment opened) (here.advance (charsOf body)) rest := by
  induction body generalizing here with
  | nil => rfl
  | cons piece body ih =>
    rw [List.mem_cons, not_or] at h
    rw [List.cons_append, Token.walk_comment_cons, if_neg (Ne.symm h.1), ih h.2, charsOf_cons,
      Point.advance_append]

/-- A marker whose body does not end it has no end. -/
private theorem walk_body_unclosed {isOutput : Bool} {body : List Piece}
    (h : Encloses isOutput .bare body) (opened start here : Point) :
    Token.walk (.code isOutput opened start [] .bare) here body =
      .error (Token.unclosed (Token.markerOf isOutput) opened) := by
  have hbody := walk_body h opened start here [] []
  rw [List.append_nil] at hbody
  rw [hbody, Token.walk_code_nil]

private theorem walk_commentBody_unclosed {body : List Piece} (h : closes .comment ∉ body)
    (opened here : Point) :
    Token.walk (.comment opened) here body = .error (Token.unclosed .comment opened) := by
  have hbody := walk_commentBody h opened here []
  rw [List.append_nil] at hbody
  rw [hbody, Token.walk_comment_nil]

/-! ### Reading some segments -/

private theorem textRun_reverse (start : Point) {cs : List Char} (h : cs ≠ []) :
    Token.textRun start cs.reverse = [⟨.text (String.ofList cs), .covering start cs⟩] := by
  obtain ⟨c, rest, hcons⟩ := List.exists_cons_of_ne_nil (List.reverse_ne_nil_iff.mpr h)
  rw [hcons, Token.textRun, ← hcons, List.reverse_reverse]

private theorem endsText_piecesOf {segments : List Segment} (h : Cut segments)
    (htext : beginWithText segments = false) {rest : List Piece} (hrest : EndsText rest) :
    EndsText (piecesOf segments ++ rest) := by
  cases segments with
  | nil => exact hrest
  | cons s segments =>
    cases s with
    | text run => cases htext
    | code isOutput body => exact .inr ⟨_, _, rfl⟩
    | comment body => exact .inr ⟨_, _, rfl⟩

/-- The walk emits the tokens of a marker and goes on outside of it, whatever follows. -/
theorem walk_marker {s : Segment} (hs : s.WellFormed) (hmarker : beginWithText [s] = false)
    (p : Point) (rest : List Piece) :
    Token.walk (.text p []) p (s.pieces ++ rest) =
      (Token.walk (.text (p.advance s.chars) []) (p.advance s.chars) rest).map
        (s.tokens p ++ ·) := by
  cases s with
  | text run => cases hmarker
  | code isOutput body =>
    obtain ⟨hbody, hbare⟩ := hs
    rw [pieces, List.cons_append, List.append_assoc, walk_opens_code]
    dsimp only
    rw [walk_body hbody, hbare, List.singleton_append, Token.walk_code_cons, if_pos ⟨rfl, rfl⟩]
    have hafter : ((p.advance (Token.markerOf isOutput).opener).advance (charsOf body)).advance
        (closes (Token.markerOf isOutput)).chars = p.advance (Segment.code isOutput body).chars := by
      simp [Segment.chars, pieces, Piece.chars]
    rw [hafter]
    cases Token.walk (.text _ []) _ rest with
    | error e => rfl
    | ok more => simp [Except.map, tokens, Token.codeRun, Token.textRun, Span.covering]
  | comment body =>
    rw [pieces, List.cons_append, List.append_assoc, walk_opens_comment, walk_commentBody hs,
      List.singleton_append, Token.walk_comment_cons, if_pos rfl]
    have hafter : ((p.advance Marker.comment.opener).advance (charsOf body)).advance
        (closes .comment).chars = p.advance (Segment.comment body).chars := by
      simp [Segment.chars, pieces, Piece.chars]
    rw [hafter]
    cases Token.walk (.text _ []) _ rest <;> rfl

/-- The walk emits the tokens of one segment after the other. -/
theorem walk_piecesOf {segments : List Segment} (h : Cut segments) (p : Point) {rest : List Piece}
    (hrest : EndsText rest) :
    Token.walk (.text p []) p (piecesOf segments ++ rest) =
      (Token.walk (.text (p.advance (charsOf (piecesOf segments))) [])
        (p.advance (charsOf (piecesOf segments))) rest).map (tokensOf p segments ++ ·) := by
  induction segments generalizing p with
  | nil => cases h : Token.walk (.text p []) p rest <;> simp [h, Except.map, tokensOf]
  | cons s segments ih =>
    have hchars : charsOf s.pieces = s.chars := rfl
    rw [piecesOf_cons, List.append_assoc, charsOf_append, Point.advance_append, tokensOf, hchars]
    cases s with
    | text run =>
      obtain ⟨⟨hrun, hopens⟩, htext, hcut⟩ := h
      have hends := endsText_piecesOf hcut htext hrest
      have hafter : p.advance (charsOf run) = p.advance (Segment.text run).chars := rfl
      rw [pieces, walk_run hopens, walk_flush hends, hafter, ih hcut, List.append_nil,
        textRun_reverse p (charsOf_ne_nil hrun)]
      cases Token.walk (.text _ []) _ rest <;> rfl
    | code isOutput body =>
      rw [walk_marker h.1 rfl, ih h.2]
      cases Token.walk (.text _ []) _ rest <;> simp [Except.map]
    | comment body =>
      rw [walk_marker h.1 rfl, ih h.2]
      cases Token.walk (.text _ []) _ rest <;> simp [Except.map]

/-- A text that is cut into segments has their tokens. -/
theorem ofText_eq {segments : List Segment} (h : Cut segments) {source : List Char}
    (hsource : split source = piecesOf segments) :
    Token.ofText source = .ok (tokensOf .origin segments) := by
  have hwalk := walk_piecesOf h .origin (.inl rfl)
  rw [List.append_nil, Token.walk_text_nil, Token.textRun] at hwalk
  rw [Token.ofText, hsource, hwalk, Except.map, List.append_nil]

/-! ### Finding the segments -/

/-- Pieces that open a marker and do not end it. -/
def Unclosed (rest : List Piece) : Prop :=
  (∃ isOutput body, rest = opens (Token.markerOf isOutput) :: body ∧
    Encloses isOutput .bare body) ∨
  ∃ body, rest = opens .comment :: body ∧ closes .comment ∉ body

/-- Where a marker is not ended, the walk fails and names the marker. -/
theorem walk_unclosed {rest : List Piece} (h : Unclosed rest) (p : Point) :
    ∃ m body, rest = opens m :: body ∧
      Token.walk (.text p []) p rest = .error (Token.unclosed m p) := by
  rcases h with ⟨isOutput, body, rfl, hbody⟩ | ⟨body, rfl, hbody⟩
  · refine ⟨_, body, rfl, ?_⟩
    rw [walk_opens_code]
    dsimp only
    rw [walk_body_unclosed hbody]
    rfl
  · refine ⟨_, body, rfl, ?_⟩
    rw [walk_opens_comment, walk_commentBody_unclosed hbody]
    rfl

/-- All pieces are a run of literal text and what ends it. -/
private theorem exists_run (rest : List Piece) :
    ∃ run more, rest = run ++ more ∧ OpensNothing run ∧ EndsText more := by
  induction rest with
  | nil => exact ⟨[], [], rfl, nofun, .inl rfl⟩
  | cons piece rest ih =>
    by_cases hpiece : ∃ m, piece = opens m
    · obtain ⟨m, rfl⟩ := hpiece
      exact ⟨[], _, rfl, nofun, .inr ⟨m, rest, rfl⟩⟩
    · obtain ⟨run, more, rfl, hrun, hends⟩ := ih
      refine ⟨piece :: run, more, rfl, ?_, hends⟩
      intro m hm
      rcases List.mem_cons.mp hm with rfl | hm
      · exact hpiece ⟨m, rfl⟩
      · exact hrun m hm

/-- Code either does not end its marker or has a first piece that does. -/
private theorem encloses_or_ends (isOutput : Bool) (quoting : Text.Quoting) (rest : List Piece) :
    Encloses isOutput quoting rest ∨ ∃ body more,
      rest = body ++ closes (Token.markerOf isOutput) :: more ∧ Encloses isOutput quoting body ∧
        quoting.run (charsOf body) = .bare := by
  induction rest generalizing quoting with
  | nil => exact .inl trivial
  | cons piece rest ih =>
    by_cases hends : piece = closes (Token.markerOf isOutput) ∧ quoting = .bare
    · obtain ⟨rfl, rfl⟩ := hends
      exact .inr ⟨[], rest, rfl, trivial, rfl⟩
    · rcases ih (quoting.run piece.chars) with hrest | ⟨body, more, rfl, hbody, hbare⟩
      · exact .inl ⟨hends, hrest⟩
      · refine .inr ⟨piece :: body, more, rfl, ⟨hends, hbody⟩, ?_⟩
        rw [charsOf_cons, Text.Quoting.run_append, hbare]

/-- A marker has a first piece that ends it, or is not ended. -/
theorem ends_or_unclosed (m : Marker) (rest : List Piece) :
    (∃ body more, rest = body ++ closes m :: more ∧ (ofMarker m body).WellFormed) ∨
      Unclosed (opens m :: rest) := by
  rcases markerOf_or_comment m with ⟨isOutput, rfl⟩ | rfl
  · rcases encloses_or_ends isOutput .bare rest with hbody | ⟨body, more, rfl, hbody⟩
    · exact .inr (.inl ⟨isOutput, rest, rfl, hbody⟩)
    · refine .inl ⟨body, more, rfl, ?_⟩
      cases isOutput <;> exact hbody
  · by_cases hbody : closes .comment ∈ rest
    · obtain ⟨body, more, rfl, hfirst⟩ := List.eq_append_cons_of_mem hbody
      exact .inl ⟨body, more, rfl, hfirst⟩
    · exact .inr (.inr ⟨rest, rfl, hbody⟩)

/-- A run of literal text in front of segments that do not begin with text. -/
private theorem exists_cut_run {run : List Piece} (hrun : OpensNothing run)
    {segments : List Segment} (h : Cut segments) (htext : beginWithText segments = false) :
    ∃ others, piecesOf others = run ++ piecesOf segments ∧ Cut others := by
  by_cases hempty : run = []
  · exact ⟨segments, by rw [hempty, List.nil_append], h⟩
  · exact ⟨.text run :: segments, rfl, ⟨hempty, hrun⟩, htext, h⟩

/-- A marker in front of segments. -/
private theorem cut_marker {s : Segment} (hs : s.WellFormed) (hmarker : beginWithText [s] = false)
    {segments : List Segment} (h : Cut segments) :
    Cut (s :: segments) ∧ beginWithText (s :: segments) = false := by
  cases s with
  | text run => cases hmarker
  | code isOutput body => exact ⟨⟨hs, h⟩, rfl⟩
  | comment body => exact ⟨⟨hs, h⟩, rfl⟩

/-- All pieces are those of some segments, but for a marker without end. -/
theorem exists_cut (all : List Piece) :
    ∃ segments rest, all = piecesOf segments ++ rest ∧ Cut segments ∧
      (rest = [] ∨ Unclosed rest) := by
  induction hlength : all.length using Nat.strongRecOn generalizing all with
  | ind n ih =>
    -- What is left after a first marker is shorter, so that it has been cut.
    have hafter (run : List Piece) (hrun : OpensNothing run) (s : Segment) (hs : s.WellFormed)
        (hmarker : beginWithText [s] = false) (more : List Piece)
        (hall : all = run ++ (s.pieces ++ more)) (hpieces : 0 < s.pieces.length) :
        ∃ segments rest, all = piecesOf segments ++ rest ∧ Cut segments ∧
          (rest = [] ∨ Unclosed rest) := by
      have hshorter : more.length < n := by
        rw [← hlength, hall, List.length_append, List.length_append]
        omega
      obtain ⟨segments, rest, hmore, hcut, hrest⟩ := ih _ hshorter more rfl
      obtain ⟨hcons, htext⟩ := cut_marker hs hmarker hcut
      obtain ⟨others, hothers, hcut⟩ := exists_cut_run hrun hcons htext
      refine ⟨others, rest, ?_, hcut, hrest⟩
      rw [hothers, hall, hmore, piecesOf_cons, List.append_assoc, List.append_assoc]
    have hnone : Cut [] := trivial
    obtain ⟨run, more, hall, hrun, hends⟩ := exists_run all
    obtain ⟨others, hothers, hcut⟩ := exists_cut_run hrun hnone rfl
    rw [piecesOf_nil, List.append_nil] at hothers
    rcases hends with rfl | ⟨m, body, rfl⟩
    · exact ⟨others, [], by rw [hothers, hall], hcut, .inl rfl⟩
    · rcases ends_or_unclosed m body with ⟨inner, more, rfl, hinner⟩ | hbody
      · have hmarker : beginWithText [ofMarker m inner] = false := by cases m <;> rfl
        apply hafter run hrun (ofMarker m inner) hinner hmarker more
        · rw [hall, pieces_ofMarker, List.cons_append, List.append_assoc, List.singleton_append]
        · rw [pieces_ofMarker]
          exact Nat.succ_pos _
      · exact ⟨others, _, by rw [hothers, hall], hcut, .inr hbody⟩

/-- The walk over all pieces emits the tokens of the segments they are those of. -/
theorem exists_of_walk {p : Point} {all : List Piece} {tokens : List Placed}
    (h : Token.walk (.text p []) p all = .ok tokens) :
    ∃ segments, Cut segments ∧ piecesOf segments = all ∧ tokens = tokensOf p segments := by
  obtain ⟨segments, rest, hall, hcut, hrest⟩ := exists_cut all
  rcases hrest with rfl | hunclosed
  · have hwalk := walk_piecesOf hcut p (.inl rfl)
    rw [← hall, h] at hwalk
    refine ⟨segments, hcut, by rw [hall, List.append_nil], ?_⟩
    simpa [Token.walk_text_nil, Token.textRun, Except.map] using hwalk
  · have hends : EndsText rest := by
      rcases hunclosed with ⟨isOutput, body, rfl, -⟩ | ⟨body, rfl, -⟩ <;> exact .inr ⟨_, _, rfl⟩
    have hwalk := walk_piecesOf hcut p hends
    obtain ⟨m, body, -, he⟩ := walk_unclosed hunclosed (p.advance (charsOf (piecesOf segments)))
    rw [← hall, h, he] at hwalk
    cases hwalk

/-! ### The segment of a token -/

/-- Whether a token is the first one of its segment. -/
def Begins : Token → Prop
  | .text _ | .outputOpen | .tagOpen => True
  | _ => False

/-- Among the tokens of segments, one that begins its segment parts the segments. -/
theorem exists_of_tokensOf_eq {p : Point} {segments : List Segment}
    (before : List Placed) {after : List Placed} {t : Placed} (h : tokensOf p segments = before ++ t :: after)
    (ht : Begins t.token) :
    ∃ front s back own, segments = front ++ s :: back ∧ tokensOf p front = before ∧
      let q := p.advance (charsOf (piecesOf front))
      s.tokens q = t :: own ∧ own ++ tokensOf (q.advance s.chars) back = after := by
  induction segments generalizing p before with
  | nil => simp [tokensOf] at h
  | cons s rest ih =>
    rw [tokensOf] at h
    -- The token is among those of the rest, or is one of the first segment.
    have hlater (more : List Placed) (hbefore : before = s.tokens p ++ more)
        (hmore : tokensOf (p.advance s.chars) rest = more ++ t :: after) :
        ∃ front s' back own, s :: rest = front ++ s' :: back ∧ tokensOf p front = before ∧
          let q := p.advance (charsOf (piecesOf front))
          s'.tokens q = t :: own ∧ own ++ tokensOf (q.advance s'.chars) back = after := by
      obtain ⟨front, s', back, own, rfl, hfront, hback⟩ := ih more hmore
      refine ⟨s :: front, s', back, own, rfl, by rw [tokensOf, hfront, hbefore], ?_⟩
      rw [piecesOf_cons, charsOf_append, Point.advance_append]
      exact hback
    rcases List.append_eq_append_iff.mp h with ⟨more, hbefore, hmore⟩ | ⟨more, hown, hmore⟩
    · exact hlater more hbefore hmore
    · cases more with
      | nil =>
        refine hlater [] ?_ hmore.symm
        rw [hown, List.append_nil, List.append_nil]
      | cons u more =>
        obtain ⟨rfl, rfl⟩ := List.cons.inj hmore
        cases before with
        | nil => exact ⟨[], s, rest, more, rfl, rfl, hown, rfl⟩
        | cons v before =>
          -- No later token of a segment begins it.
          have hmem : t ∈ (s.tokens p).tail := by
            rw [hown]
            exact List.mem_append_right _ List.mem_cons_self
          cases s with
          | text run => cases hmem
          | comment body => cases hmem
          | code isOutput body =>
            rw [tokens, List.tail_cons] at hmem
            rcases List.mem_cons.mp hmem with rfl | hmem
            · exact ht.elim
            · obtain rfl := List.mem_singleton.mp hmem
              cases isOutput <;> exact ht.elim

/-- The three tokens of a marker with code come from one segment and reach from its start to its
end. -/
theorem exists_code_of_tokensOf_eq (isOutput : Bool) {p : Point} {segments : List Segment}
    (before : List Placed) {after : List Placed} {code : String} {first middle last : Span}
    (h : tokensOf p segments = before ++ ⟨Token.opening isOutput, first⟩ :: ⟨.code code, middle⟩ ::
      ⟨Token.closing isOutput, last⟩ :: after) :
    ∃ front body back, segments = front ++ .code isOutput body :: back ∧ tokensOf p front = before ∧
      let q := p.advance (charsOf (piecesOf front))
      let own := (Segment.code isOutput body).chars
      (Segment.code isOutput body).tokens q = [⟨Token.opening isOutput, first⟩, ⟨.code code, middle⟩,
        ⟨Token.closing isOutput, last⟩] ∧
      first.start = q ∧ last.stop = q.advance own ∧ tokensOf (q.advance own) back = after := by
  have hbegins : Begins (Token.opening isOutput) := by cases isOutput <;> trivial
  obtain ⟨front, s, back, own, rfl, hfront, hown, hafter⟩ := exists_of_tokensOf_eq before h hbegins
  cases s with
  | text run => cases isOutput <;> cases hown
  | comment body => cases hown
  | code isOutput' body =>
    obtain rfl : isOutput' = isOutput := by
      cases isOutput' <;> cases isOutput <;> first | rfl | cases hown
    rw [tokens] at hown
    obtain ⟨hfirst, rfl⟩ := List.cons.inj hown
    obtain ⟨hmiddle, hafter⟩ := List.cons.inj hafter
    obtain ⟨hlast, hafter⟩ := List.cons.inj hafter
    refine ⟨front, body, back, rfl, hfront, by rw [tokens, hfirst, hmiddle, hlast], ?_, ?_, hafter⟩
    · exact (congrArg (·.span.start) hfirst).symm
    · rw [← congrArg (·.span.stop) hlast]
      simp [Span.covering, Segment.chars, pieces, Piece.chars]

end Segment

end Stencil
