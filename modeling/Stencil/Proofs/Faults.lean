import Stencil.Proofs.Closing
import Stencil.Proofs.Computation
import Stencil.Proofs.Grammar
import Stencil.Proofs.Layout

/-!
# Where a text fails

A text that is no template has a marker that is to blame, and the error gives the place of that
marker. If the text has tokens, it is the first marker in the text that cannot be taken in, or the
opening of the innermost block that is still open at the end. A marker without end comes before both:
it is the last marker of its text.
-/

namespace Stencil

open Piece

/-- Whether a text has the opener of a marker after some pieces, at the offset that is the number of
their bytes. -/
def Token.HasOpener (source : String) (read : List Piece) (m : Marker) : Prop :=
  let opened := (Point.origin.advance (charsOf read)).offset
  Text.slice source 0 opened = String.ofList (charsOf read) ∧
    Text.slice source opened (opened + 2) = String.ofList m.opener

private theorem Token.Opens.hasOpener {source : String} {read rest : List Piece} {m : Marker}
    {earlier : List Placed} (h : Token.Opens source.toList read m rest earlier) :
    Token.HasOpener source read m := by
  have hsource : source = String.ofList (charsOf read ++ m.opener ++ charsOf rest) := by
    rw [← String.toList_inj, String.toList_ofList, ← charsOf_split source.toList, h.pieces]
    simp [Piece.chars]
  have hstop : (pointAfter (charsOf read ++ m.opener)).offset =
      (pointAfter (charsOf read)).offset + 2 := by
    rw [offset_pointAfter, offset_pointAfter, String.utf8Len_append]
    cases m <;> rfl
  constructor
  · have hslice := slice_pointAfter [] (charsOf read) (m.opener ++ charsOf rest)
    rwa [List.nil_append, ← List.append_assoc, ← hsource] at hslice
  · have hslice := slice_pointAfter (charsOf read) m.opener (charsOf rest)
    rwa [hstop, ← hsource] at hslice

namespace Node

variable {kindOf : String → Option TagKind}

/-! ### Blocks that are left open -/

/-- Which blocks some tokens leave open, innermost first: those of no block, or the opening of a
block between the tokens before it and those of the nodes in it so far. -/
inductive Leaves (kindOf : String → Option TagKind) : List Placed → List TagHead → Prop where
  | none {tokens : List Placed} {nodes : List Node} (h : Derives kindOf tokens nodes) :
      Leaves kindOf tokens []
  | block {code : String} (first middle last : Span) {before inner : List Placed}
      {outer : List TagHead} {nodes : List Node} (h : Leaves kindOf before outer)
      (hname : (TagHead.ofCode code).name ≠ "")
      (hkind : kindOf (TagHead.ofCode code).name = some .block)
      (hinner : Derives kindOf inner nodes) :
      Leaves kindOf
        (before ++ ⟨.tagOpen, first⟩ :: ⟨.code code, middle⟩ :: ⟨.tagClose, last⟩ :: inner)
        (TagHead.ofCode code :: outer)

/-- Nodes leave the same blocks open. -/
theorem Leaves.append {tokens more : List Placed} {blocks : List TagHead} {nodes : List Node}
    (h : Leaves kindOf tokens blocks) (hmore : Derives kindOf more nodes) :
    Leaves kindOf (tokens ++ more) blocks := by
  cases h with
  | none h => exact .none (h.append hmore)
  | block first middle last h hname hkind hinner =>
    have hblock := Leaves.block first middle last h hname hkind (hinner.append hmore)
    simpa using hblock

/-- Where the walk stands after some tokens that leave blocks open. -/
private structure Reaches (kindOf : String → Option TagKind) (tokens : List Placed)
    (progress : Progress) : Prop where
  leaves : Leaves kindOf tokens (progress.blocks.map OpenBlock.head)
  ofTokens : ∀ more, ofTokens kindOf (tokens ++ more) = walk kindOf progress tokens.length more

namespace Reaches

variable {tokens : List Placed} {progress next : Progress}

private theorem start : Reaches kindOf [] ⟨[], []⟩ := ⟨.none .nil, fun _ ↦ rfl⟩

/-- Tokens of nodes are read. -/
private theorem derives {more : List Placed} {nodes : List Node} (h : Reaches kindOf tokens progress)
    (hmore : Derives kindOf more nodes) :
    Reaches kindOf (tokens ++ more) { progress with nodes := nodes.reverse ++ progress.nodes } where
  leaves := h.leaves.append hmore
  ofTokens later := by
    rw [List.append_assoc, h.ofTokens, walk_of_derives hmore, List.length_append]

/-- A tag marker is read: it is a node, or opens a block, or ends the innermost one. -/
private theorem tag {code : String} (first middle last : Span) (h : Reaches kindOf tokens progress)
    (htake : takeTag kindOf progress code (first.through last) = .ok next) :
    Reaches kindOf
      (tokens ++ [⟨.tagOpen, first⟩, ⟨.code code, middle⟩, ⟨.tagClose, last⟩]) next where
  leaves := by
    obtain ⟨nodes, blocks⟩ := progress
    obtain ⟨hname, ⟨hkind, rfl⟩ | ⟨hkind, rfl⟩ | ⟨hkind, block, outer, rfl, hend, rfl⟩⟩ :=
      takeTag_eq_ok.mp htake
    · exact h.leaves.append (.standalone first middle last hname hkind .nil)
    · exact .block first middle last h.leaves hname hkind .nil
    · -- With its end the block is a node among those before its opening.
      have hleaves := h.leaves
      generalize hheads : List.map OpenBlock.head (block :: outer) = heads at hleaves
      cases hleaves with
      | none => cases hheads
      | block first' middle' last' hbefore hname' hkind' hinner =>
        obtain ⟨hhead, rfl⟩ := List.cons.inj hheads
        rw [hhead] at hend
        have hblock := Derives.block first' middle' last' first middle last hname' hkind' hinner
          hend hkind .nil
        simpa using hbefore.append hblock
  ofTokens later := by
    rw [List.append_assoc, h.ofTokens, List.length_append]
    exact walk_tag htake _ middle later

end Reaches

/-- The walk reaches the end of tokens that leave blocks open. -/
private theorem Leaves.exists_reaches {tokens : List Placed} {blocks : List TagHead}
    (h : Leaves kindOf tokens blocks) :
    ∃ progress, Reaches kindOf tokens progress ∧ progress.blocks.map OpenBlock.head = blocks := by
  induction h with
  | none h => exact ⟨_, .derives .start h, rfl⟩
  | block first middle last h hname hkind hinner ih =>
    obtain ⟨progress, hprogress, rfl⟩ := ih
    have hopen := hprogress.tag first middle last
      (takeTag_eq_ok.mpr ⟨hname, .inr (.inl ⟨hkind, rfl⟩)⟩)
    have hreaches := hopen.derives hinner
    rw [List.append_assoc] at hreaches
    exact ⟨_, hreaches, rfl⟩

/-! ### Markers that cannot be taken in -/

/-- Why a marker that opens at a point, with some code, cannot be taken in while blocks are open,
and the error that this is. -/
inductive Fails (kindOf : String → Option TagKind) (blocks : List TagHead) (code : String)
    (opened : Point) : Marker → Error → Prop where
  /-- The code of an output is no expression. The error is at its beginning. -/
  | expression {fault : SyntaxFault} (hparse : Expression.parse code = .error fault) :
      Fails kindOf blocks code opened .output
        (fault.error (opened.advance Marker.output.opener).place)
  /-- The code of a tag has no word. -/
  | empty (hname : (TagHead.ofCode code).name = "") :
      Fails kindOf blocks code opened .tag (.emptyTag opened.place)
  /-- The first word is no tag and no end. -/
  | unknown (hname : (TagHead.ofCode code).name ≠ "")
      (hkind : kindOf (TagHead.ofCode code).name = none)
      (hend : ∀ closed, (TagHead.ofCode code).name ≠ "end" ++ closed) :
      Fails kindOf blocks code opened .tag (.unknownTag (TagHead.ofCode code).name opened.place)
  /-- The first word is an end, and no block is open. -/
  | unexpected {closed : String} (hkind : kindOf (TagHead.ofCode code).name = none)
      (hend : (TagHead.ofCode code).name = "end" ++ closed) (hblocks : blocks = []) :
      Fails kindOf blocks code opened .tag
        (.unexpectedEndTag (TagHead.ofCode code).name opened.place)
  /-- The first word is the end of another block than the innermost one. -/
  | mismatched {closed : String} {head : TagHead} {outer : List TagHead}
      (hkind : kindOf (TagHead.ofCode code).name = none)
      (hend : (TagHead.ofCode code).name = "end" ++ closed) (hblocks : blocks = head :: outer)
      (hother : head.name ≠ closed) :
      Fails kindOf blocks code opened .tag
        (.mismatchedEndTag head.name (TagHead.ofCode code).name opened.place)

private theorem takeOutput_eq_error {progress : Progress} {code : String} {opened : Point}
    {span : Span} {e : Error} :
    takeOutput progress code (opened.advance Marker.output.opener) span = .error e ↔
      Fails kindOf (progress.blocks.map OpenBlock.head) code opened .output e := by
  unfold takeOutput
  constructor
  · intro h
    cases hparse : Expression.parse code with
    | ok found =>
      rw [hparse] at h
      cases h
    | error fault =>
      rw [hparse] at h
      cases h
      exact .expression hparse
  · rintro ⟨hparse⟩
    rw [hparse]

/-- An end tag cannot be taken in if it is none, or ends no block, or another one. -/
private theorem takeEnd_eq_error {progress : Progress} {code : String} {span : Span} {e : Error}
    (hname : (TagHead.ofCode code).name ≠ "") (hkind : kindOf (TagHead.ofCode code).name = none) :
    takeEnd progress (TagHead.ofCode code).name span = .error e ↔
      Fails kindOf (progress.blocks.map OpenBlock.head) code span.start .tag e := by
  obtain ⟨nodes, blocks⟩ := progress
  unfold takeEnd
  cases hclosed : closedBy? (TagHead.ofCode code).name with
  | none =>
    have hend : ∀ closed, (TagHead.ofCode code).name ≠ "end" ++ closed := by
      intro closed heq
      rw [closedBy?_eq_some.mpr heq] at hclosed
      cases hclosed
    constructor
    · intro h
      cases h
      exact .unknown hname hkind hend
    · intro h
      cases h with
      | empty hempty => exact absurd hempty hname
      | unknown => rfl
      | unexpected _ heq => exact absurd heq (hend _)
      | mismatched _ heq => exact absurd heq (hend _)
  | some closed =>
    have hend := closedBy?_eq_some.mp hclosed
    have hsame {other : String} (heq : (TagHead.ofCode code).name = "end" ++ other) :
        other = closed := by
      rw [closedBy?_eq_some.mpr heq] at hclosed
      exact Option.some.inj hclosed
    cases blocks with
    | nil =>
      constructor
      · intro h
        cases h
        exact .unexpected hkind hend rfl
      · intro h
        cases h with
        | empty hempty => exact absurd hempty hname
        | unknown _ _ hnone => exact absurd hend (hnone _)
        | unexpected => rfl
        | mismatched _ _ hblocks => cases hblocks
    | cons block outer =>
      by_cases hblock : block.head.name = closed
      · simp only [if_pos hblock, reduceCtorEq, false_iff]
        intro h
        cases h with
        | empty hempty => exact hname hempty
        | unknown _ _ hnone => exact hnone _ hend
        | unexpected _ _ hblocks => cases hblocks
        | mismatched _ heq hblocks hother =>
          cases hblocks
          exact hother (hblock.trans (hsame heq).symm)
      · simp only [if_neg hblock, Except.error.injEq]
        constructor
        · rintro rfl
          exact .mismatched hkind hend rfl hblock
        · intro h
          cases h with
          | empty hempty => exact absurd hempty hname
          | unknown _ _ hnone => exact absurd hend (hnone _)
          | unexpected _ _ hblocks => cases hblocks
          | mismatched _ _ hblocks => cases hblocks; rfl

private theorem takeTag_eq_error {progress : Progress} {code : String} {span : Span} {e : Error} :
    takeTag kindOf progress code span = .error e ↔
      Fails kindOf (progress.blocks.map OpenBlock.head) code span.start .tag e := by
  unfold takeTag
  dsimp only
  have hend (closed : String) : "end" ++ closed ≠ "" := by simp
  by_cases hname : (TagHead.ofCode code).name = ""
  · rw [if_pos hname]
    constructor
    · intro h
      cases h
      exact .empty hname
    · intro h
      cases h with
      | empty => rfl
      | unknown hne => exact absurd hname hne
      | unexpected _ heq => exact absurd (heq.symm.trans hname) (hend _)
      | mismatched _ heq => exact absurd (heq.symm.trans hname) (hend _)
  · rw [if_neg hname]
    have htag {kind : TagKind} (hkind : kindOf (TagHead.ofCode code).name = some kind) :
        ¬ Fails kindOf (progress.blocks.map OpenBlock.head) code span.start .tag e := by
      intro h
      cases h with
      | empty hempty => exact hname hempty
      | unknown _ hnone => exact nomatch hkind.symm.trans hnone
      | unexpected hnone => exact nomatch hkind.symm.trans hnone
      | mismatched hnone => exact nomatch hkind.symm.trans hnone
    match hkind : kindOf (TagHead.ofCode code).name with
    | some .standalone => simpa using htag hkind
    | some .block => simpa using htag hkind
    | none => exact takeEnd_eq_error hname hkind

/-! ### The marker that fails first -/

/-- The walk fails at a marker that cannot be taken in. -/
private theorem walk_eq_error {progress : Progress} {m : Marker} {code : List Char} {opened : Point}
    {e : Error}
    (h : Fails kindOf (progress.blocks.map OpenBlock.head) (String.ofList code) opened m e)
    (index : Nat) (later : List Placed) :
    walk kindOf progress index (m.tokens opened code ++ later) = .error e := by
  cases m with
  | output =>
    rw [Marker.tokens, List.cons_append, List.cons_append, List.cons_append, walk_outputMarker,
      Span.covering, takeOutput_eq_error.mpr h, Except.bind]
  | tag =>
    rw [Marker.tokens, List.cons_append, List.cons_append, List.cons_append, walk_tagMarker,
      takeTag_eq_error.mpr h, Except.bind]
  | comment => cases h

/-- A marker is read or cannot be taken in. -/
private theorem Reaches.reads_or_fails {tokens : List Placed} {progress : Progress}
    (h : Reaches kindOf tokens progress) (isOutput : Bool) (body : List Piece) (p : Point) :
    (∃ next, Reaches kindOf (tokens ++ (Segment.code isOutput body).tokens p) next) ∨
      ∃ e, Fails kindOf (progress.blocks.map OpenBlock.head) (String.ofList (charsOf body)) p
        (Token.markerOf isOutput) e := by
  cases isOutput with
  | true =>
    cases hparse : Expression.parse (String.ofList (charsOf body)) with
    | ok e => exact .inl ⟨_, h.derives (.output _ _ _ hparse .nil)⟩
    | error fault => exact .inr ⟨_, .expression hparse⟩
  | false =>
    let first := Span.covering p Marker.tag.opener
    let start := p.advance Marker.tag.opener
    let last := Span.covering (start.advance (charsOf body)) Marker.tag.closer
    cases htake : takeTag kindOf progress (String.ofList (charsOf body)) (first.through last) with
    | ok next => exact .inl ⟨next, h.tag first (.covering start (charsOf body)) last htake⟩
    | error e => exact .inr ⟨e, takeTag_eq_error.mp htake⟩

/-- Where the walk over segments fails, one of its markers cannot be taken in, or a block is left
open. -/
private theorem Reaches.exists_of_error {tokens : List Placed} {progress : Progress}
    (h : Reaches kindOf tokens progress) {p : Point} {segments : List Segment} {e : Error}
    (hwalk : walk kindOf progress tokens.length (Segment.tokensOf p segments) = .error e) :
    (∃ front isOutput body back blocks, segments = front ++ .code isOutput body :: back ∧
      Leaves kindOf (tokens ++ Segment.tokensOf p front) blocks ∧
      Fails kindOf blocks (String.ofList (charsOf body))
        (p.advance (charsOf (Segment.piecesOf front))) (Token.markerOf isOutput) e) ∨
    ∃ head outer, Leaves kindOf (tokens ++ Segment.tokensOf p segments) (head :: outer) := by
  induction segments generalizing tokens progress p with
  | nil =>
    refine .inr ?_
    rw [Segment.tokensOf, walk] at hwalk
    split at hwalk
    · cases hwalk
    · next block outer hblocks =>
      refine ⟨block.head, outer.map OpenBlock.head, ?_⟩
      have hleaves := h.leaves
      rw [hblocks] at hleaves
      rwa [Segment.tokensOf, List.append_nil]
  | cons s rest ih =>
    rw [Segment.tokensOf] at hwalk
    -- If the first segment is read, the walk fails in what follows it.
    have hread {next : Progress} (hnext : Reaches kindOf (tokens ++ s.tokens p) next) :
        (∃ front isOutput body back blocks, s :: rest = front ++ .code isOutput body :: back ∧
          Leaves kindOf (tokens ++ Segment.tokensOf p front) blocks ∧
          Fails kindOf blocks (String.ofList (charsOf body))
            (p.advance (charsOf (Segment.piecesOf front))) (Token.markerOf isOutput) e) ∨
        ∃ head outer, Leaves kindOf (tokens ++ Segment.tokensOf p (s :: rest)) (head :: outer) := by
      rw [← h.ofTokens, ← List.append_assoc, hnext.ofTokens] at hwalk
      have hsplit (front : List Segment) :
          tokens ++ Segment.tokensOf p (s :: front) =
            tokens ++ s.tokens p ++ Segment.tokensOf (p.advance s.chars) front := by
        rw [Segment.tokensOf, List.append_assoc]
      rcases ih hnext hwalk with
        ⟨front, isOutput, body, back, blocks, rfl, hleaves, hfails⟩ | ⟨head, outer, hleaves⟩
      · refine .inl ⟨s :: front, isOutput, body, back, blocks, rfl, hsplit front ▸ hleaves, ?_⟩
        rw [Segment.piecesOf_cons, charsOf_append, Point.advance_append]
        exact hfails
      · exact .inr ⟨head, outer, hsplit rest ▸ hleaves⟩
    cases s with
    | text run => exact hread (h.derives (.text .nil))
    | comment body =>
      have hsame : Reaches kindOf (tokens ++ (Segment.comment body).tokens p) progress := by
        rwa [Segment.tokens, List.append_nil]
      exact hread hsame
    | code isOutput body =>
      rcases h.reads_or_fails isOutput body p with ⟨next, hnext⟩ | ⟨e', hfails⟩
      · exact hread hnext
      · have htokens := Segment.tokens_ofMarker (Token.markerOf isOutput) p body
        rw [Segment.ofMarker_markerOf] at htokens
        rw [htokens, walk_eq_error hfails] at hwalk
        cases hwalk
        refine .inl ⟨[], isOutput, body, rest, _, rfl, ?_, hfails⟩
        rw [Segment.tokensOf, List.append_nil]
        exact h.leaves

/-- A block that is still open at the end is an error. -/
private theorem ofTokens_eq_missingEndTag {code : String} (first middle last : Span)
    {before inner : List Placed} {outer : List TagHead} {nodes : List Node}
    (h : Leaves kindOf before outer) (hname : (TagHead.ofCode code).name ≠ "")
    (hkind : kindOf (TagHead.ofCode code).name = some .block) (hinner : Derives kindOf inner nodes) :
    ofTokens kindOf
        (before ++ ⟨.tagOpen, first⟩ :: ⟨.code code, middle⟩ :: ⟨.tagClose, last⟩ :: inner) =
      .error (.missingEndTag (TagHead.ofCode code).name first.start.place) := by
  obtain ⟨progress, hprogress, -⟩ := h.exists_reaches
  have hopen := hprogress.tag first middle last
    (takeTag_eq_ok.mpr ⟨hname, .inr (.inl ⟨hkind, rfl⟩)⟩)
  have hend := (hopen.derives hinner).ofTokens []
  rw [List.append_nil, List.append_assoc] at hend
  exact hend

/-! ### The marker that is to blame -/

/-- How a marker that opens in a text between `read` and `rest`, after the tokens `earlier`, is to
blame for an error. -/
inductive Blames (kindOf : String → Option TagKind) (source : List Char) (read : List Piece)
    (m : Marker) (rest : List Piece) (earlier : List Placed) : Error → Prop where
  /-- The marker has no end. No later marker opens. -/
  | unclosed (hnone : ∀ code after, ¬ m.Shows (charsOf rest) code after)
      (hlast : ∀ {read' m' rest' earlier'}, Token.Opens source read' m' rest' earlier' →
        (charsOf read').length ≤ (charsOf read).length) :
      Blames kindOf source read m rest earlier
        (.unclosedMarker (String.ofList m.opener) (Point.origin.advance (charsOf read)).place)
  /-- All markers have an end. Those before the marker are taken in, and the marker is not. -/
  | failing {code : List Char} {later : List Placed} {blocks : List TagHead} {e : Error}
      (htokens : Token.ofText source =
        .ok (earlier ++ m.tokens (Point.origin.advance (charsOf read)) code ++ later))
      (hearlier : Leaves kindOf earlier blocks)
      (hfails : Fails kindOf blocks (String.ofList code) (Point.origin.advance (charsOf read)) m e) :
      Blames kindOf source read m rest earlier e
  /-- All markers have an end and are taken in. The marker opens a block, and up to the end of the
  text nodes follow. -/
  | unended {code : List Char} {later : List Placed} {blocks : List TagHead} {nodes : List Node}
      (htag : m = .tag)
      (htokens : Token.ofText source =
        .ok (earlier ++ m.tokens (Point.origin.advance (charsOf read)) code ++ later))
      (hearlier : Leaves kindOf earlier blocks)
      (hname : (TagHead.ofCode (String.ofList code)).name ≠ "")
      (hkind : kindOf (TagHead.ofCode (String.ofList code)).name = some .block)
      (hlater : Derives kindOf later nodes) :
      Blames kindOf source read m rest earlier
        (.missingEndTag (TagHead.ofCode (String.ofList code)).name
          (Point.origin.advance (charsOf read)).place)

/-- A marker that is to blame makes its text fail. -/
private theorem Blames.parse_eq_error {source : String} {read rest : List Piece} {m : Marker}
    {earlier : List Placed} {e : Error} (h : Blames kindOf source.toList read m rest earlier e)
    (hopens : Token.Opens source.toList read m rest earlier) :
    parse kindOf source = .error e := by
  cases h with
  | unclosed hnone =>
    rw [parse, hopens.ofText_eq_error hnone]
    rfl
  | failing htokens hearlier hfails =>
    obtain ⟨progress, hprogress, rfl⟩ := hearlier.exists_reaches
    rw [parse, htokens, Except.bind, List.append_assoc, hprogress.ofTokens]
    exact walk_eq_error hfails _ _
  | unended htag htokens hearlier hname hkind hlater =>
    subst htag
    rw [parse, htokens, Except.bind, List.append_assoc]
    exact ofTokens_eq_missingEndTag _ _ _ hearlier hname hkind hlater

/-- Tokens that do not make up nodes have a marker that is to blame. -/
private theorem exists_blames_of_ofTokens {source : List Char} {segments : List Segment}
    (hcut : Segment.Cut segments) (hpieces : Segment.piecesOf segments = split source)
    {e : Error} (h : ofTokens kindOf (Segment.tokensOf .origin segments) = .error e) :
    ∃ read m rest earlier, Token.Opens source read m rest earlier ∧
      Blames kindOf source read m rest earlier e := by
  -- A marker among the segments opens in the text, and its tokens are between those of the others.
  have hmarker {front back : List Segment} {isOutput : Bool} {body : List Piece}
      (hsegments : segments = front ++ .code isOutput body :: back) :
      let m := Token.markerOf isOutput
      let opened := Point.origin.advance (charsOf (Segment.piecesOf front))
      (∃ rest, Token.Opens source (Segment.piecesOf front) m rest
        (Segment.tokensOf .origin front)) ∧
      Token.ofText source = .ok (Segment.tokensOf .origin front ++ m.tokens opened (charsOf body) ++
        Segment.tokensOf (opened.advance (Segment.code isOutput body).chars) back) := by
    have htokens := Segment.tokens_ofMarker (Token.markerOf isOutput)
      (Point.origin.advance (charsOf (Segment.piecesOf front))) body
    rw [Segment.ofMarker_markerOf] at htokens
    constructor
    · refine ⟨body ++ .closes (Token.markerOf isOutput) :: Segment.piecesOf back,
        .of_piecesOf (hsegments ▸ hcut).of_append_left ?_⟩
      rw [← hpieces, hsegments, Segment.piecesOf_append]
      simp [Segment.pieces]
    · rw [Segment.ofText_eq hcut hpieces.symm, hsegments, Segment.tokensOf_append, Segment.tokensOf,
        htokens, List.append_assoc]
  rcases Reaches.start.exists_of_error h with
    ⟨front, isOutput, body, back, blocks, hsegments, hleaves, hfails⟩ | ⟨head, outer, hleaves⟩
  · obtain ⟨⟨rest, hopens⟩, htokens⟩ := hmarker hsegments
    exact ⟨_, _, rest, _, hopens, .failing htokens hleaves hfails⟩
  · rw [List.nil_append] at hleaves
    generalize hall : Segment.tokensOf .origin segments = tokens at hleaves
    cases hleaves with
    | block first middle last hbefore hname hkind hinner =>
      obtain ⟨front, body, back, hsegments, rfl, hown, hstart, -, hback⟩ :=
        Segment.exists_code_of_tokensOf_eq false _ hall
      obtain ⟨⟨rest, hopens⟩, htokens⟩ := hmarker hsegments
      have hcode : String.ofList (charsOf body) = _ :=
        Token.code.inj (congrArg Placed.token (List.cons.inj (List.cons.inj hown).2).1)
      rw [hall, ofTokens_eq_missingEndTag first middle last hbefore hname hkind hinner] at h
      cases h
      rw [← hback] at hinner
      rw [← hcode] at hname hkind
      rw [hstart, ← hcode]
      exact ⟨_, _, rest, _, hopens, .unended rfl htokens hbefore hname hkind hinner⟩

/-- A text fails exactly for an opener in it that is to blame, and the error tells which one: it
gives the place of the opener, or that of the code after it if the code is no expression. Whatever
else is wrong in the text, a marker without end comes first, and then the first marker that cannot
be taken in. -/
theorem parse_eq_error_iff (r : Registry) {source : String} {e : Error} :
    parse r.tagKind? source = .error e ↔ ∃ read m rest earlier,
      Token.Opens source.toList read m rest earlier ∧
      Token.HasOpener source read m ∧
      Blames r.tagKind? source.toList read m rest earlier e := by
  constructor
  · intro h
    have hblames : ∃ read m rest earlier, Token.Opens source.toList read m rest earlier ∧
        Blames r.tagKind? source.toList read m rest earlier e := by
      cases htokens : Token.ofText source.toList with
      | error e' =>
        rw [parse, htokens] at h
        cases h
        obtain ⟨read, m, rest, earlier, hopens, hunclosed, rfl⟩ :=
          Token.Opens.exists_of_ofText_eq_error htokens
        refine ⟨read, m, rest, earlier, hopens, .unclosed ?_ ?_⟩
        · exact fun code after hshows ↦ hopens.not_shows_of_unclosed hunclosed hshows
        · exact fun hopens' ↦ hopens.length_le_of_unclosed hunclosed hopens'
      | ok tokens =>
        rw [parse, htokens] at h
        obtain ⟨segments, hcut, hpieces, rfl⟩ := Segment.exists_of_walk htokens
        exact exists_blames_of_ofTokens hcut hpieces h
    obtain ⟨read, m, rest, earlier, hopens, hblames⟩ := hblames
    exact ⟨read, m, rest, earlier, hopens, hopens.hasOpener, hblames⟩
  · rintro ⟨read, m, rest, earlier, hopens, -, hblames⟩
    exact hblames.parse_eq_error hopens

end Node

end Stencil
