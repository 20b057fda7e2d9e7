import Mathlib.Data.List.Induction
import Stencil.Proofs.Sealed

/-!
# Where markers end

A marker ends at its first closer outside of string literals that is not hidden. Text is cut into
marks from left to right, so that a brace or a sign just before a closer can form a mark with the
first character of that closer and hide it. A marker without a closer that shows is an error, and
there is no other one.
-/

namespace Stencil

open Piece

/-! ### Closers in a text -/

namespace Marker

/-- Whether a text is some code, a closer of the marker outside of string literals, and a rest.
Comments have no literals. -/
def Closes (m : Marker) (text code rest : List Char) : Prop :=
  text = code ++ m.closer ++ rest ∧ (m ≠ .comment → Text.Quoting.bare.run code = .bare)

/-- The number of opening braces at the end of a text. -/
def bracesAtEnd (cs : List Char) : Nat := (cs.reverse.takeWhile (· = '\x7b')).length

/-- Whether some code hides a closer right behind it. Braces pair up from the first one on; one that
is left over takes the sign of a closer that follows, and a sign that no brace takes takes the brace
of a closer that follows. -/
def Hides : Marker → List Char → Prop
  | .output, code => ∃ front sign, code = front ++ [sign] ∧ (sign = '%' ∨ sign = '#') ∧
      bracesAtEnd front % 2 = 0
  | .tag, code => bracesAtEnd code % 2 = 1
  | .comment, code => bracesAtEnd code % 2 = 1

/-- Whether a text is some code, a closer outside of string literals that the code does not hide, and
a rest. -/
def Shows (m : Marker) (text code rest : List Char) : Prop :=
  m.Closes text code rest ∧ ¬ m.Hides code

/-- Whether a closer is the first one that shows in a text. -/
def ShowsFirst (m : Marker) (text code rest : List Char) : Prop :=
  m.Shows text code rest ∧
    ∀ other more, m.Shows text other more → code.length ≤ other.length

/-- The tokens of a marker that opens at a point and encloses some code. A comment has none. -/
def tokens (m : Marker) (opened : Point) (code : List Char) : List Placed :=
  let start := opened.advance m.opener
  let ends (opening closing : Token) : List Placed :=
    [⟨opening, .covering opened m.opener⟩, ⟨.code (String.ofList code), .covering start code⟩,
      ⟨closing, .covering (start.advance code) m.closer⟩]
  match m with
  | .output => ends .outputOpen .outputClose
  | .tag => ends .tagOpen .tagClose
  | .comment => []

end Marker

/-! ### Braces at the end of a cut text -/

namespace Piece

/-- A last character that forms a mark with a lone one before it ends that mark. -/
private theorem split_concat_of_mark? {front : List Char} {init : List Piece} {c d : Char}
    {piece : Piece} (hlone : split front = init ++ [.char c]) (hmark : mark? c d = some piece) :
    split (front ++ [d]) = init ++ [piece] := by
  have hapart : Apart (init ++ [.char c]) := hlone ▸ apart_split front
  have hchars : front ++ [d] = charsOf (init ++ [piece]) := by
    have hfront : front = charsOf init ++ [c] := by
      rw [← charsOf_split front, hlone, charsOf_append]
      rfl
    rw [hfront, charsOf_append, charsOf_cons, chars_of_mark? hmark, List.append_assoc]
    rfl
  rw [hchars]
  apply Apart.split_charsOf
  refine hapart.of_append.1.append (Apart.cons_of_mark? hmark trivial) ?_
  rintro before e rfl f hf
  rw [charsOf_cons, chars_of_mark? hmark] at hf
  cases hf
  rw [List.append_assoc] at hapart
  exact hapart.of_append.2.1 c rfl

/-- A last character that forms no mark with a lone one before it is a piece of its own. -/
private theorem split_concat {front : List Char} {d : Char}
    (h : ∀ init c, split front = init ++ [.char c] → mark? c d = none) :
    split (front ++ [d]) = split front ++ [.char d] := by
  apply split_append_of_lone
  intro init c hinit e he
  cases he
  exact h init c hinit

private theorem mark?_brace_eq_none {c : Char} (h : c ≠ '\x7b') : mark? c '\x7b' = none := by
  unfold mark?
  split <;> simp_all

private theorem concat_inj {a b : List Piece} {x y : Piece} (h : a ++ [x] = b ++ [y]) : x = y := by
  simpa using (List.append_inj' h rfl).2

/-- An odd number of braces at the end leaves the last one alone. -/
private theorem lone_brace_iff (cs : List Char) :
    (∃ init, split cs = init ++ [.char '\x7b']) ↔ Marker.bracesAtEnd cs % 2 = 1 := by
  induction cs using List.reverseRecOn with
  | nil => simp [split, Marker.bracesAtEnd]
  | append_singleton front c ih =>
    by_cases hbrace : c = '\x7b'
    · subst hbrace
      have hcount : Marker.bracesAtEnd (front ++ ['\x7b']) = Marker.bracesAtEnd front + 1 := by
        simp [Marker.bracesAtEnd]
      rw [hcount]
      by_cases hlone : ∃ init, split front = init ++ [.char '\x7b']
      · have hodd := ih.mp hlone
        obtain ⟨init, hinit⟩ := hlone
        have hmark : mark? '\x7b' '\x7b' = some (.opens .output) := rfl
        rw [split_concat_of_mark? hinit hmark]
        constructor
        · rintro ⟨other, hother⟩
          cases concat_inj hother
        · omega
      · have heven := mt ih.mpr hlone
        rw [split_concat]
        · exact ⟨fun _ ↦ by omega, fun _ ↦ ⟨_, rfl⟩⟩
        · intro init e he
          apply mark?_brace_eq_none
          rintro rfl
          exact hlone ⟨init, he⟩
    · have hcount : Marker.bracesAtEnd (front ++ [c]) = 0 := by
        simp [Marker.bracesAtEnd, hbrace]
      rw [hcount]
      refine ⟨?_, fun h ↦ by omega⟩
      rintro ⟨init, hinit⟩
      have hlast : front ++ [c] = charsOf init ++ ['\x7b'] := by
        rw [← charsOf_split (front ++ [c]), hinit, charsOf_append]
        rfl
      exact absurd (List.append_inj' hlast rfl).2 (by simpa using hbrace)

end Piece

/-! ### Hidden closers -/

namespace Marker

variable {m : Marker} {code : List Char} {init : List Piece} {c d : Char}

/-- Code that hides a closer ends with a lone character that forms a mark with it. -/
private theorem exists_lone_of_hides (h : m.Hides code) :
    ∃ init c, split code = init ++ [.char c] ∧ ∀ d ∈ m.closer.head?, mark? c d ≠ none := by
  cases m with
  | output =>
    obtain ⟨front, sign, rfl, hsign, heven⟩ := h
    have hlone := mt (lone_brace_iff front).mp (by omega)
    refine ⟨split front, sign, split_concat ?_, ?_⟩
    · intro init e he
      have hbrace : e ≠ '\x7b' := by
        rintro rfl
        exact hlone ⟨init, he⟩
      rcases hsign with rfl | rfl <;> unfold mark? <;> split <;> simp_all
    · rintro d ⟨⟩
      rcases hsign with rfl | rfl <;> exact Option.some_ne_none _
  | tag =>
    obtain ⟨init, hinit⟩ := (lone_brace_iff code).mpr h
    refine ⟨init, _, hinit, ?_⟩
    rintro d ⟨⟩
    exact Option.some_ne_none _
  | comment =>
    obtain ⟨init, hinit⟩ := (lone_brace_iff code).mpr h
    refine ⟨init, _, hinit, ?_⟩
    rintro d ⟨⟩
    exact Option.some_ne_none _

/-- Code that ends with a lone character that forms a mark with a closer hides it, or the character
makes up an earlier closer with it. -/
private theorem hides_of_lone (h : split code = init ++ [.char c]) (hd : d ∈ m.closer.head?)
    (hmark : mark? c d ≠ none) : m.Hides code ∨ m = .output ∧ c = '\x7d' := by
  have hbraces (hbrace : c = '\x7b') : bracesAtEnd code % 2 = 1 := by
    subst hbrace
    exact (lone_brace_iff code).mp ⟨init, h⟩
  cases m with
  | tag =>
    cases hd
    refine .inl (hbraces ?_)
    by_contra hbrace
    exact hmark (by unfold mark?; split <;> simp_all)
  | comment =>
    cases hd
    refine .inl (hbraces ?_)
    by_contra hbrace
    exact hmark (by unfold mark?; split <;> simp_all)
  | output =>
    cases hd
    by_cases hclosing : c = '\x7d'
    · exact .inr ⟨rfl, hclosing⟩
    · have hsign : c = '%' ∨ c = '#' := by
        by_contra hsign
        exact hmark (by unfold mark?; split <;> simp_all)
      have hapart : Apart (init ++ [.char c]) := h ▸ apart_split code
      have hcode : code = charsOf init ++ [c] := by
        rw [← charsOf_split code, h, charsOf_append]
        rfl
      refine .inl ⟨charsOf init, c, hcode, hsign, ?_⟩
      by_contra hodd
      obtain ⟨before, hbefore⟩ := (lone_brace_iff (charsOf init)).mpr (by omega)
      rw [hapart.of_append.1.split_charsOf] at hbefore
      rw [hbefore, List.append_assoc] at hapart
      have hnone := hapart.of_append.2.1 c rfl
      rcases hsign with rfl | rfl <;> cases hnone

/-! ### Closers among pieces -/

private theorem head?_closer (m : Marker) (more : List Piece) :
    (charsOf (.closes m :: more)).head? = m.closer.head? := by
  cases m <;> rfl

/-- A closer among the pieces of a text shows in the text. -/
private theorem shows_of_split {text : List Char} {inner more : List Piece}
    (h : split text = inner ++ .closes m :: more)
    (hbare : m ≠ .comment → Text.Quoting.bare.run (charsOf inner) = .bare) :
    m.Shows text (charsOf inner) (charsOf more) := by
  refine ⟨⟨?_, hbare⟩, ?_⟩
  · rw [← charsOf_split text, h, charsOf_append, charsOf_cons, ← List.append_assoc]
    rfl
  · intro hhides
    have hapart : Apart (inner ++ .closes m :: more) := h ▸ apart_split text
    obtain ⟨init, c, hinit, hmark⟩ := exists_lone_of_hides hhides
    rw [hapart.of_append.1.split_charsOf] at hinit
    rw [hinit, List.append_assoc] at hapart
    have hnone := hapart.of_append.2.1
    rw [List.append_eq, List.nil_append, head?_closer] at hnone
    obtain ⟨d, hd⟩ : ∃ d, d ∈ m.closer.head? := by cases m <;> exact ⟨_, rfl⟩
    exact hmark d hd (hnone d hd)

/-- A closer that shows in a text is one of its pieces, unless an earlier one is. -/
private theorem exists_split_of_shows {text rest : List Char} (h : m.Shows text code rest) :
    ∃ inner more, split text = inner ++ .closes m :: more ∧
      (m ≠ .comment → Text.Quoting.bare.run (charsOf inner) = .bare) ∧
      (charsOf inner).length ≤ code.length := by
  obtain ⟨⟨rfl, hbare⟩, hshown⟩ := h
  by_cases hlone : ∃ init c, split code = init ++ [.char c] ∧
      ∃ d ∈ m.closer.head?, mark? c d ≠ none
  · obtain ⟨init, c, hinit, d, hd, hmark⟩ := hlone
    obtain hhides | ⟨rfl, rfl⟩ := hides_of_lone hinit hd hmark
    · exact absurd hhides hshown
    have hapart : Apart (init ++ [.char '\x7d']) := hinit ▸ apart_split code
    have hcode : code = charsOf init ++ ['\x7d'] := by
      rw [← charsOf_split code, hinit, charsOf_append]
      rfl
    refine ⟨init, split ('\x7d' :: rest), ?_, ?_, ?_⟩
    · have hsplit : split (charsOf init ++ (Marker.output.closer ++ '\x7d' :: rest)) =
          split (charsOf init) ++ split (Marker.output.closer ++ '\x7d' :: rest) := by
        apply split_append_of_lone
        intro before e he f hf
        cases hf
        rw [hapart.of_append.1.split_charsOf] at he
        rw [he, List.append_assoc] at hapart
        exact hapart.of_append.2.1 _ rfl
      rw [split_closer, hapart.of_append.1.split_charsOf] at hsplit
      rw [hcode, ← hsplit, List.append_assoc, List.append_assoc]
      rfl
    · intro hcomment
      have hends := hbare hcomment
      rw [hcode, Text.Quoting.run_append] at hends
      exact Text.Sealed.eq_bare_of_step (Text.Sealed.delimited_run _) (by decide) hends
    · rw [hcode, List.length_append]
      exact Nat.le_add_right _ _
  · refine ⟨split code, split rest, ?_, ?_, ?_⟩
    · rw [List.append_assoc, split_append_of_lone, split_closer]
      intro init c hinit d hd
      by_contra hmark
      refine hlone ⟨init, c, hinit, d, ?_, hmark⟩
      cases m <;> exact hd
    · rwa [charsOf_split]
    · rw [charsOf_split]

end Marker

/-! ### What ends a marker -/

namespace Segment

variable {m : Marker} {a b : List Piece}

private theorem run_ne_bare_of_encloses {isOutput : Bool} {quoting : Text.Quoting}
    (h : Encloses isOutput quoting (a ++ .closes (Token.markerOf isOutput) :: b)) :
    quoting.run (charsOf a) ≠ .bare := by
  induction a generalizing quoting with
  | nil => exact fun hbare ↦ h.1 ⟨rfl, hbare⟩
  | cons piece a ih =>
    rw [charsOf_cons, Text.Quoting.run_append]
    exact ih h.2

private theorem Encloses.of_append {isOutput : Bool} {quoting : Text.Quoting}
    (h : Encloses isOutput quoting (a ++ b)) : Encloses isOutput quoting a := by
  induction a generalizing quoting with
  | nil => trivial
  | cons piece a ih => exact ⟨h.1, ih h.2⟩

/-- What stands between the ends of a marker closes its string literals. -/
private theorem WellFormed.run_eq_bare (h : (ofMarker m a).WellFormed) (hm : m ≠ .comment) :
    Text.Quoting.bare.run (charsOf a) = .bare := by
  cases m with
  | output => exact h.2
  | tag => exact h.2
  | comment => exact absurd rfl hm

/-- No closer outside of string literals is among what stands between the ends of a marker. -/
private theorem WellFormed.not_bare (h : (ofMarker m (a ++ .closes m :: b)).WellFormed) :
    m ≠ .comment ∧ Text.Quoting.bare.run (charsOf a) ≠ .bare := by
  cases m with
  | output => exact ⟨nofun, run_ne_bare_of_encloses h.1⟩
  | tag => exact ⟨nofun, run_ne_bare_of_encloses h.1⟩
  | comment => exact absurd (List.mem_append_right a List.mem_cons_self) h

/-- No closer outside of string literals follows the opener of a marker without end. -/
private theorem Unclosed.not_bare (h : Unclosed (.opens m :: (a ++ .closes m :: b))) :
    m ≠ .comment ∧ Text.Quoting.bare.run (charsOf a) ≠ .bare := by
  rcases h with ⟨isOutput, body, heq, hbody⟩ | ⟨body, heq, hbody⟩
  · obtain ⟨hmarker, rfl⟩ := List.cons.inj heq
    cases hmarker
    exact ⟨by cases isOutput <;> nofun, run_ne_bare_of_encloses hbody⟩
  · obtain ⟨hmarker, rfl⟩ := List.cons.inj heq
    cases hmarker
    exact absurd (List.mem_append_right a List.mem_cons_self) hbody

/-- Less of the pieces that do not end a marker does not end it either. -/
private theorem Unclosed.of_append (h : Unclosed (.opens m :: (a ++ b))) :
    Unclosed (.opens m :: a) := by
  rcases h with ⟨isOutput, body, heq, hbody⟩ | ⟨body, heq, hbody⟩
  · obtain ⟨hmarker, rfl⟩ := List.cons.inj heq
    exact .inl ⟨isOutput, a, by rw [hmarker], hbody.of_append⟩
  · obtain ⟨hmarker, rfl⟩ := List.cons.inj heq
    exact .inr ⟨a, by rw [hmarker], fun hmem ↦ hbody (List.mem_append_left _ hmem)⟩

/-- Of two ends of a marker the one that is well-formed comes first. -/
private theorem WellFormed.length_le {inner more : List Piece} (h : (ofMarker m inner).WellFormed)
    (hall : inner ++ .closes m :: more = a ++ .closes m :: b)
    (hbare : m ≠ .comment → Text.Quoting.bare.run (charsOf a) = .bare) :
    (charsOf inner).length ≤ (charsOf a).length := by
  rcases List.append_eq_append_iff.mp hall with ⟨between, rfl, -⟩ | ⟨between, rfl, hrest⟩
  · rw [charsOf_append, List.length_append]
    exact Nat.le_add_right _ _
  · cases between with
    | nil => rw [List.append_nil]
    | cons piece between =>
      obtain ⟨rfl, -⟩ := List.cons.inj hrest
      obtain ⟨hmarker, hopen⟩ := h.not_bare
      exact absurd (hbare hmarker) hopen

/-- The first closer that shows is the one that ends the marker. -/
private theorem eq_of_showsFirst {inner more : List Piece} (h : (ofMarker m inner).WellFormed)
    (hapart : Apart (inner ++ .closes m :: more)) {code after : List Char}
    (hfirst : m.ShowsFirst (charsOf (inner ++ .closes m :: more)) code after) :
    code = charsOf inner ∧ after = charsOf more := by
  obtain ⟨hshows, hleast⟩ := hfirst
  have hle := hleast _ _ (Marker.shows_of_split hapart.split_charsOf h.run_eq_bare)
  obtain ⟨other, others, hother, hotherBare, hotherLe⟩ := Marker.exists_split_of_shows hshows
  rw [hapart.split_charsOf] at hother
  have hge := h.length_le hother hotherBare
  have htext := hshows.1.1
  rw [charsOf_append, charsOf_cons, ← List.append_assoc] at htext
  obtain ⟨hbefore, hafter⟩ := List.append_inj htext (by
    rw [List.length_append, List.length_append]
    change (charsOf inner).length + m.closer.length = _
    omega)
  exact ⟨((List.append_inj' hbefore rfl).1).symm, hafter.symm⟩

theorem tokens_ofMarker (m : Marker) (p : Point) (body : List Piece) :
    (ofMarker m body).tokens p = m.tokens p (charsOf body) := by
  cases m <;> rfl

/-- The walk over a marker with its end. -/
private theorem walk_ofMarker {inner : List Piece} (h : (ofMarker m inner).WellFormed) (p : Point)
    (more : List Piece) :
    let next := p.advance (m.opener ++ charsOf inner ++ m.closer)
    Token.walk (.text p []) p (.opens m :: (inner ++ .closes m :: more)) =
      (Token.walk (.text next []) next more).map (m.tokens p (charsOf inner) ++ ·) := by
  have hmarker : beginWithText [ofMarker m inner] = false := by cases m <;> rfl
  have hwalk := walk_marker h hmarker p more
  have hchars : (ofMarker m inner).chars = m.opener ++ charsOf inner ++ m.closer := by
    rw [Segment.chars, pieces_ofMarker, charsOf_cons, charsOf_append, List.append_assoc]
    simp [Piece.chars]
  rw [hchars, tokens_ofMarker, pieces_ofMarker, List.cons_append, List.append_assoc] at hwalk
  exact hwalk

end Segment

/-! ### The markers of a text -/

namespace Token

/-- Whether a text opens a marker between some pieces: the walk over the pieces before it, which emits
`earlier`, leaves no marker open. -/
structure Opens (source : List Char) (read : List Piece) (m : Marker) (rest : List Piece)
    (earlier : List Placed) : Prop where
  pieces : split source = read ++ .opens m :: rest
  outside : walk (.text .origin []) .origin read = .ok earlier

/-- Where the markers of a text end. -/
structure EndsMarkers (source : List Char) : Prop where
  /-- A marker ends at the first closer that shows after it, and the walk goes on outside of it. -/
  ends : ∀ {read m rest earlier}, Opens source read m rest earlier →
    ∀ code after, m.ShowsFirst (charsOf rest) code after →
      let opened := Point.origin.advance (charsOf read)
      let next := opened.advance (m.opener ++ code ++ m.closer)
      ofText source = (walk (.text next []) next (split after)).map
        (earlier ++ m.tokens opened code ++ ·)
  /-- A marker after which no closer shows is an error. -/
  unclosed : ∀ {read m rest earlier}, Opens source read m rest earlier →
    (∀ code after, ¬ m.Shows (charsOf rest) code after) →
      ofText source = .error (unclosed m (Point.origin.advance (charsOf read)))
  /-- There is no other error. -/
  fails : ∀ e, ofText source = .error e → ∃ read m rest earlier,
    Opens source read m rest earlier ∧ (∀ code after, ¬ m.Shows (charsOf rest) code after) ∧
      e = Token.unclosed m (Point.origin.advance (charsOf read))

namespace Opens

variable {source : List Char} {read rest : List Piece} {m : Marker} {earlier : List Placed}

theorem apart (h : Opens source read m rest earlier) : Apart rest := by
  have hapart : Apart (read ++ .opens m :: rest) := h.pieces ▸ apart_split source
  exact hapart.of_append.2

/-- Up to the opener the walk has emitted what it emits for the pieces before it. -/
theorem ofText_eq (h : Opens source read m rest earlier) :
    ofText source = (walk (.text (Point.origin.advance (charsOf read)) [])
      (Point.origin.advance (charsOf read)) (.opens m :: rest)).map (earlier ++ ·) := by
  obtain ⟨segments, hcut, rfl, rfl⟩ := Segment.exists_of_walk h.outside
  rw [ofText, h.pieces]
  exact Segment.walk_piecesOf hcut .origin (.inr ⟨m, rest, rfl⟩)

/-- No closer shows after the opener of a marker without end. -/
theorem not_shows_of_unclosed (h : Opens source read m rest earlier)
    (hunclosed : Segment.Unclosed (.opens m :: rest)) {code after : List Char} :
    ¬ m.Shows (charsOf rest) code after := by
  intro hshows
  obtain ⟨inner, more, hinner, hbare, -⟩ := Marker.exists_split_of_shows hshows
  rw [h.apart.split_charsOf] at hinner
  obtain ⟨hmarker, hopen⟩ := (hinner ▸ hunclosed).not_bare
  exact hopen (hbare hmarker)

/-- After a marker with an end the walk goes on outside of it. -/
theorem ofText_eq_of_showsFirst (h : Opens source read m rest earlier) {code after : List Char}
    (hfirst : m.ShowsFirst (charsOf rest) code after) :
    let opened := Point.origin.advance (charsOf read)
    let next := opened.advance (m.opener ++ code ++ m.closer)
    ofText source = (walk (.text next []) next (split after)).map
      (earlier ++ m.tokens opened code ++ ·) := by
  rcases Segment.ends_or_unclosed m rest with ⟨inner, more, rfl, hinner⟩ | hunclosed
  · obtain ⟨rfl, rfl⟩ := Segment.eq_of_showsFirst hinner h.apart hfirst
    have hafter : Apart more := h.apart.of_append.2
    have hmore := hafter.split_charsOf
    rw [h.ofText_eq, Segment.walk_ofMarker hinner, hmore]
    dsimp only
    generalize walk (.text _ []) _ more = outcome
    cases outcome <;> simp [Except.map]
  · exact (h.not_shows_of_unclosed hunclosed hfirst.1).elim

/-- A marker without a closer that shows is an error. -/
theorem ofText_eq_error (h : Opens source read m rest earlier)
    (hnone : ∀ code after, ¬ m.Shows (charsOf rest) code after) :
    ofText source = .error (unclosed m (Point.origin.advance (charsOf read))) := by
  rcases Segment.ends_or_unclosed m rest with ⟨inner, more, rfl, hinner⟩ | hunclosed
  · have hshows := Marker.shows_of_split h.apart.split_charsOf hinner.run_eq_bare
    exact absurd hshows (hnone _ _)
  · obtain ⟨other, body, heq, hwalk⟩ :=
      Segment.walk_unclosed hunclosed (Point.origin.advance (charsOf read))
    cases heq
    rw [h.ofText_eq, hwalk]
    rfl

/-- The walk over segments in front of a marker leaves no marker open. -/
theorem of_piecesOf {segments : List Segment} (hcut : Segment.Cut segments)
    (hsplit : split source = Segment.piecesOf segments ++ .opens m :: rest) :
    Opens source (Segment.piecesOf segments) m rest (Segment.tokensOf .origin segments) := by
  refine ⟨hsplit, ?_⟩
  have hwalk := Segment.walk_piecesOf hcut .origin (.inl rfl)
  rw [List.append_nil] at hwalk
  rw [hwalk, walk_text_nil, textRun, Except.map, List.append_nil]

/-- No marker opens after one without end. -/
theorem length_le_of_unclosed (h : Opens source read m rest earlier)
    (hunclosed : Segment.Unclosed (.opens m :: rest)) {read' rest' : List Piece} {m' : Marker}
    {earlier' : List Placed} (h' : Opens source read' m' rest' earlier') :
    (charsOf read').length ≤ (charsOf read).length := by
  rcases List.append_eq_append_iff.mp (h.pieces.symm.trans h'.pieces) with
    ⟨between, rfl, hrest⟩ | ⟨between, rfl, -⟩
  · cases between with
    | nil => rw [List.append_nil]
    | cons piece between =>
      -- The walk over what is between the openers does not end the first marker.
      obtain ⟨rfl, rfl⟩ := List.cons.inj hrest
      obtain ⟨segments, hcut, rfl, -⟩ := Segment.exists_of_walk h.outside
      have hwalk := h'.outside
      obtain ⟨_, _, _, he⟩ := Segment.walk_unclosed hunclosed.of_append
        (Point.origin.advance (charsOf (Segment.piecesOf segments)))
      rw [Segment.walk_piecesOf hcut .origin (.inr ⟨m, between, rfl⟩), he] at hwalk
      cases hwalk
  · rw [charsOf_append, List.length_append]
    exact Nat.le_add_right _ _

/-- A text that has no tokens opens a marker that it does not end. -/
theorem exists_of_ofText_eq_error {e : Error} (h : ofText source = .error e) :
    ∃ read m rest earlier, Opens source read m rest earlier ∧
      Segment.Unclosed (.opens m :: rest) ∧
        e = Token.unclosed m (Point.origin.advance (charsOf read)) := by
  obtain ⟨segments, rest, hall, hcut, hrest⟩ := Segment.exists_cut (split source)
  rcases hrest with rfl | hunclosed
  · rw [List.append_nil] at hall
    rw [Segment.ofText_eq hcut hall] at h
    cases h
  · obtain ⟨m, body, rfl, hwalk⟩ := Segment.walk_unclosed hunclosed
      (Point.origin.advance (charsOf (Segment.piecesOf segments)))
    have hopens := of_piecesOf hcut hall
    refine ⟨_, m, body, _, hopens, hunclosed, ?_⟩
    rw [hopens.ofText_eq, hwalk] at h
    cases h
    rfl

end Opens

/-- A marker ends at the first closer that shows, outside of string literals and not hidden. What
follows is read outside of markers again. A text is in error only for a marker after which no closer
shows. -/
theorem endsMarkers (source : List Char) : EndsMarkers source := by
  constructor
  case ends =>
    intro read m rest earlier hopens code after hfirst
    exact hopens.ofText_eq_of_showsFirst hfirst
  case unclosed =>
    intro read m rest earlier hopens hnone
    exact hopens.ofText_eq_error hnone
  case fails =>
    intro e he
    obtain ⟨read, m, rest, earlier, hopens, hunclosed, rfl⟩ := Opens.exists_of_ofText_eq_error he
    refine ⟨read, m, rest, earlier, hopens, ?_, rfl⟩
    exact fun code after hshows ↦ hopens.not_shows_of_unclosed hunclosed hshows

/-- A comment with a closer outside of string literals that its last brace hides: the comment counts
as unclosed. -/
theorem exists_unclosed_of_closes : ∃ read m rest earlier code after,
    Opens "\x7b# a \x7b#\x7db".toList read m rest earlier ∧
      m.Closes (charsOf rest) code after ∧
      (∀ other more, m.Closes (charsOf rest) other more → code.length ≤ other.length) ∧
      ofText "\x7b# a \x7b#\x7db".toList =
        .error (unclosed m (Point.origin.advance (charsOf read))) := by
  refine ⟨[], .comment, [.char ' ', .char 'a', .char ' ', .opens .comment, .char '\x7d', .char 'b'],
    [], [' ', 'a', ' ', '\x7b'], ['b'], ⟨by decide, by decide⟩, ⟨by decide, fun h ↦ absurd rfl h⟩,
    ?_, by decide⟩
  rintro other more ⟨htext, -⟩
  by_contra hshorter
  have hlength : other.length < 4 := Nat.lt_of_not_le hshorter
  match other with
  | [] => cases htext
  | [_] => cases htext
  | [_, _] => cases htext
  | [_, _, _] => cases htext

end Token

end Stencil
