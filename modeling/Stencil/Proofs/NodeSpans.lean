import Stencil.Proofs.Layout
import Stencil.Proofs.Seam

/-!
# Nodes in their text

The span of an output or of a tag delimits its source. It reaches from the opener of the node to its
closer, siblings follow one another, and children lie between the two ends of the tag they are in.
Parsed alone, the source of a node is this one node, whose places are counted from its start.
-/

namespace Stencil

open Piece Segment

/-! ### Places counted from a start -/

namespace Point

/-- The point in a text of a point in a part of it, where the part begins at `start`. -/
def translate (start p : Point) : Point where
  line := start.line + (p.line - 1)
  column := if p.line = 1 then start.column + (p.column - 1) else p.column
  offset := start.offset + p.offset

private theorem one_le_step {p : Point} (h : 1 ≤ p.line ∧ 1 ≤ p.column) (c : Char) :
    1 ≤ (p.step c).line ∧ 1 ≤ (p.step c).column := by
  unfold step
  split
  · exact ⟨Nat.le_add_left _ _, le_rfl⟩
  · exact ⟨h.1, Nat.le_add_left _ _⟩

private theorem translate_step (start : Point) {p : Point} (h : 1 ≤ p.line ∧ 1 ≤ p.column)
    (c : Char) : start.translate (p.step c) = (start.translate p).step c := by
  by_cases hc : c = '\n'
  · have hline : p.line + 1 ≠ 1 := by omega
    simp only [step, if_pos hc, translate, if_neg hline, Point.mk.injEq, true_and]
    omega
  · simp only [step, if_neg hc, translate, Point.mk.injEq, true_and]
    constructor
    · split <;> omega
    · omega

/-- Reading a part from its own beginning leads to the same point as reading it in its text. -/
theorem translate_advance (start : Point) (cs : List Char) :
    start.translate (origin.advance cs) = start.advance cs := by
  have hread (p : Point) (h : 1 ≤ p.line ∧ 1 ≤ p.column) :
      start.translate (p.advance cs) = (start.translate p).advance cs := by
    induction cs generalizing p with
    | nil => rfl
    | cons c cs ih =>
      rw [advance_cons, advance_cons, ih _ (one_le_step h c), translate_step start h]
  exact hread origin ⟨le_rfl, le_rfl⟩

/-- Text takes room. -/
theorem offset_lt_advance (p : Point) {cs : List Char} (h : cs ≠ []) :
    p.offset < (p.advance cs).offset := by
  rw [offset_advance, String.utf8ByteSize_ofList]
  cases cs with
  | nil => exact absurd rfl h
  | cons c cs =>
    have hc := c.utf8Size_pos
    simp only [String.utf8Len_cons]
    omega

theorem offset_le_advance (p : Point) (cs : List Char) : p.offset ≤ (p.advance cs).offset := by
  rw [offset_advance]
  exact Nat.le_add_right _ _

end Point

/-- The span in a text of a span in a part of it. -/
def Span.translate (start : Point) (span : Span) : Span :=
  ⟨start.translate span.start, start.translate span.stop⟩

theorem Span.translate_covering (start : Point) (before cs : List Char) :
    (Span.covering (Point.origin.advance before) cs).translate start =
      .covering (start.advance before) cs := by
  rw [covering, translate, ← Point.advance_append, Point.translate_advance,
    Point.translate_advance, Point.advance_append, covering]

/-- The token in a text of a token in a part of it. -/
def Placed.translate (start : Point) (t : Placed) : Placed := ⟨t.token, t.span.translate start⟩

namespace Node

mutual

/-- The node in a text of a node in a part of it. -/
def translate (start : Point) : Node → Node
  | .text s => .text s
  | .output e span => .output e (span.translate start)
  | .tag head kind children span =>
    .tag head kind (translateAll start children) (span.translate start)

/-- The nodes in a text of nodes in a part of it. -/
def translateAll (start : Point) : List Node → List Node
  | [] => []
  | node :: rest => node.translate start :: translateAll start rest

end

end Node

/-- The tokens of segments are translated where the segments begin elsewhere. -/
theorem Segment.tokensOf_translate (start : Point) (before : List Char) (segments : List Segment) :
    (tokensOf (Point.origin.advance before) segments).map (Placed.translate start) =
      tokensOf (start.advance before) segments := by
  induction segments generalizing before with
  | nil => rfl
  | cons s rest ih =>
    have htokens : (s.tokens (Point.origin.advance before)).map (Placed.translate start) =
        s.tokens (start.advance before) := by
      cases s with
      | text run => simp [tokens, Placed.translate, Span.translate_covering]
      | code isOutput body =>
        simp only [tokens, ← Point.advance_append, List.map_cons, List.map_nil, Placed.translate,
          Span.translate_covering]
      | comment body => rfl
    rw [tokensOf, tokensOf, List.map_append, htokens, ← Point.advance_append, ih,
      Point.advance_append]

namespace Node

variable {kindOf : String → Option TagKind}

/-- Translated tokens make up the translated nodes. -/
theorem Derives.translate {tokens : List Placed} {nodes : List Node} (h : Derives kindOf tokens nodes)
    (start : Point) :
    Derives kindOf (tokens.map (Placed.translate start)) (translateAll start nodes) := by
  induction h with
  | nil => exact .nil
  | text rest ih => exact .text ih
  | output first middle last hparse rest ih => exact .output _ _ _ hparse ih
  | standalone first middle last hname hkind rest ih => exact .standalone _ _ _ hname hkind ih
  | block a b c a' b' c' hname hkind body hend hfree rest ihbody ih =>
    have hblock := Derives.block (a.translate start) (b.translate start) (c.translate start)
      (a'.translate start) (b'.translate start) (c'.translate start) hname hkind ihbody hend hfree ih
    rw [List.map_cons, List.map_cons, List.map_cons, List.map_append]
    exact hblock

/-- Segments that make up nodes at a point make up, as a text of their own, these nodes with their
places counted from that point. -/
theorem exists_parse_of_derives {segments : List Segment} (hcut : Cut segments)
    (hapart : Apart (piecesOf segments)) {p : Point} {nodes : List Node}
    (h : Derives kindOf (tokensOf p segments) nodes) :
    ∃ found, parse kindOf (String.ofList (charsOf (piecesOf segments))) = .ok found ∧
      translateAll p found = nodes := by
  obtain ⟨found, hfound, -⟩ := h.replace (map_token_tokensOf .origin p segments)
  refine ⟨found, ?_, ?_⟩
  · rw [parse, String.toList_ofList, ofText_eq hcut hapart.split_charsOf]
    exact ofTokens_of_derives hfound
  · -- Both lists are what the walk answers for the tokens at `p`.
    have hmoved := hfound.translate p
    have htokens := tokensOf_translate p [] segments
    rw [Point.advance_nil, Point.advance_nil] at htokens
    rw [htokens] at hmoved
    exact Except.ok.inj ((ofTokens_of_derives hmoved).symm.trans (ofTokens_of_derives h))

/-! ### What delimits a node -/

mutual

/-- A node and the nodes in it, at any depth. -/
def parts : Node → List Node
  | .text s => [.text s]
  | .output e span => [.output e span]
  | .tag head kind children span => .tag head kind children span :: partsOf children

/-- Some nodes and the nodes in them, at any depth. -/
def partsOf : List Node → List Node
  | [] => []
  | node :: rest => node.parts ++ partsOf rest

end

/-- The nodes right inside a node. -/
def children : Node → List Node
  | .tag _ _ children _ => children
  | _ => []

/-- The kind of marker that a node is written with, and its span. Literal text has none. -/
def bounds? : Node → Option (Marker × Span)
  | .text _ => none
  | .output _ span => some (.output, span)
  | .tag _ _ _ span => some (.tag, span)

/-- The spans of some nodes. -/
def spansOf (nodes : List Node) : List Span := nodes.filterMap fun node ↦ node.bounds?.map Prod.snd

/-- Whether the spans of some nodes follow one another. -/
def InOrder (nodes : List Node) : Prop :=
  (spansOf nodes).Pairwise fun a b ↦ a.stop.offset ≤ b.start.offset

theorem parts_eq (node : Node) : node.parts = node :: partsOf node.children := by
  cases node <;> rfl

/-- Whether the spans of some nodes follow one another between two offsets. -/
private def LieIn (start stop : Nat) (nodes : List Node) : Prop :=
  InOrder nodes ∧ ∀ span ∈ spansOf nodes, start ≤ span.start.offset ∧ span.stop.offset ≤ stop

/-- Whether the children of a node lie strictly inside of it. -/
private def Nested (node : Node) : Prop :=
  ∀ m span, node.bounds? = some (m, span) → ∃ start stop,
    span.start.offset < start ∧ stop < span.stop.offset ∧ LieIn start stop node.children

private theorem lieIn_nil (start stop : Nat) : LieIn start stop [] := ⟨.nil, nofun⟩

private theorem LieIn.mono {start stop start' stop' : Nat} {nodes : List Node}
    (h : LieIn start stop nodes) (hstart : start' ≤ start) (hstop : stop ≤ stop') :
    LieIn start' stop' nodes :=
  ⟨h.1, fun span hspan ↦ ⟨hstart.trans (h.2 span hspan).1, (h.2 span hspan).2.trans hstop⟩⟩

private theorem LieIn.cons {node : Node} {nodes : List Node} {m : Marker} {span : Span} {stop : Nat}
    (hbounds : node.bounds? = some (m, span)) (hspan : span.start.offset ≤ span.stop.offset)
    (h : LieIn span.stop.offset stop nodes) (hstop : span.stop.offset ≤ stop) :
    LieIn span.start.offset stop (node :: nodes) := by
  have hspans : spansOf (node :: nodes) = span :: spansOf nodes := by
    simp [spansOf, hbounds]
  constructor
  · rw [InOrder, hspans]
    exact .cons (fun other hother ↦ (h.2 other hother).1) h.1
  · intro other hother
    rw [hspans] at hother
    rcases List.mem_cons.mp hother with rfl | hother
    · exact ⟨le_rfl, hstop⟩
    · exact ⟨hspan.trans (h.2 other hother).1, (h.2 other hother).2⟩

/-! ### Nodes among segments -/

/-- How a node stands in segments that begin at a point: some of them are its own, which its span
covers and which make it up. -/
private def Stands (kindOf : String → Option TagKind) (p : Point) (segments : List Segment)
    (node : Node) : Prop :=
  ∀ m span, node.bounds? = some (m, span) → ∃ before own after inner,
    segments = before ++ own ++ after ∧
    span = .covering (p.advance (charsOf (piecesOf before))) (charsOf (piecesOf own)) ∧
    charsOf (piecesOf own) = m.around inner ∧ Derives kindOf (tokensOf span.start own) [node]

private theorem Stands.within {p : Point} (front : List Segment) {segments : List Segment}
    (back : List Segment) {node : Node}
    (h : Stands kindOf (p.advance (charsOf (piecesOf front))) segments node) :
    Stands kindOf p (front ++ segments ++ back) node := by
  intro m span hbounds
  obtain ⟨before, own, after, inner, rfl, hspan, haround, hown⟩ := h m span hbounds
  refine ⟨front ++ before, own, after ++ back, inner, by simp, ?_, haround, hown⟩
  rw [piecesOf_append, charsOf_append, Point.advance_append]
  exact hspan

/-- How nodes stand in the segments that make them up. -/
private structure Standing (kindOf : String → Option TagKind) (p : Point) (segments : List Segment)
    (nodes : List Node) : Prop where
  lie : LieIn p.offset (p.advance (charsOf (piecesOf segments))).offset nodes
  parts : ∀ node ∈ partsOf nodes, Stands kindOf p segments node ∧ Nested node

namespace Standing

variable {p : Point} {segments : List Segment} {nodes : List Node}

private theorem nil (p : Point) (segments : List Segment) : Standing kindOf p segments [] :=
  ⟨lieIn_nil _ _, nofun⟩

/-- Segments in front leave no node. -/
private theorem prepend (front : List Segment)
    (h : Standing kindOf (p.advance (charsOf (piecesOf front))) segments nodes) :
    Standing kindOf p (front ++ segments) nodes where
  lie := by
    refine h.lie.mono (Point.offset_le_advance _ _) ?_
    rw [piecesOf_append, charsOf_append, Point.advance_append]
  parts node hnode := by
    obtain ⟨hstands, hnested⟩ := h.parts node hnode
    have hwithin := hstands.within front []
    rw [List.append_nil] at hwithin
    exact ⟨hwithin, hnested⟩

/-- Literal text has no span. -/
private theorem text (s : String) (h : Standing kindOf p segments nodes) :
    Standing kindOf p segments (.text s :: nodes) where
  lie := h.lie
  parts node hnode := by
    rcases List.mem_cons.mp hnode with rfl | hnode
    · exact ⟨nofun, nofun⟩
    · exact h.parts node hnode

/-- A node comes before others with the segments that are its own. -/
private theorem cons (own : List Segment) {rest : List Segment} {node : Node} {m : Marker}
    (hbounds : node.bounds? = some (m, .covering p (charsOf (piecesOf own))))
    (haround : ∃ inner, charsOf (piecesOf own) = m.around inner)
    (hown : Derives kindOf (tokensOf p own) [node]) (hnested : Nested node)
    (hchildren : ∀ part ∈ partsOf node.children, Stands kindOf p own part ∧ Nested part)
    (h : Standing kindOf (p.advance (charsOf (piecesOf own))) rest nodes) :
    Standing kindOf p (own ++ rest) (node :: nodes) where
  lie := by
    have hstop : (p.advance (charsOf (piecesOf (own ++ rest)))).offset =
        ((p.advance (charsOf (piecesOf own))).advance (charsOf (piecesOf rest))).offset := by
      rw [piecesOf_append, charsOf_append, Point.advance_append]
    rw [hstop]
    exact LieIn.cons hbounds (Point.offset_le_advance _ _) h.lie (Point.offset_le_advance _ _)
  parts part hpart := by
    rw [partsOf, parts_eq, List.cons_append, List.mem_cons, List.mem_append] at hpart
    rcases hpart with rfl | hpart | hpart
    · refine ⟨?_, hnested⟩
      intro m' span hspan
      rw [hbounds] at hspan
      cases hspan
      obtain ⟨inner, haround⟩ := haround
      exact ⟨[], own, rest, inner, rfl, rfl, haround, hown⟩
    · obtain ⟨hstands, hpartNested⟩ := hchildren part hpart
      exact ⟨hstands.within [] rest, hpartNested⟩
    · obtain ⟨hstands, hpartNested⟩ := h.parts part hpart
      have hwithin := hstands.within own []
      rw [List.append_nil] at hwithin
      exact ⟨hwithin, hpartNested⟩

end Standing

end Node

namespace Segment

private theorem chars_code (isOutput : Bool) (body : List Piece) :
    (Segment.code isOutput body).chars = (Token.markerOf isOutput).around (charsOf body) := by
  simp [Segment.chars, pieces, Piece.chars, Marker.around]

end Segment

namespace Node

variable {kindOf : String → Option TagKind}

private theorem charsOf_piecesOf_singleton (s : Segment) : charsOf (piecesOf [s]) = s.chars := by
  rw [piecesOf_cons, piecesOf_nil, List.append_nil]
  rfl

/-- A node without children comes before others with the one segment that is its own. -/
private theorem Standing.marker {p : Point} {isOutput : Bool} {body : List Piece}
    {rest : List Segment} {node : Node} {nodes : List Node}
    (hbounds : node.bounds? = some (Token.markerOf isOutput,
      .covering p (Segment.code isOutput body).chars))
    (hown : Derives kindOf ((Segment.code isOutput body).tokens p) [node])
    (hnone : node.children = [])
    (h : Standing kindOf (p.advance (Segment.code isOutput body).chars) rest nodes) :
    Standing kindOf p (.code isOutput body :: rest) (node :: nodes) := by
  have hnested : Nested node := by
    intro m span hspan
    rw [hbounds] at hspan
    cases hspan
    have hroom : (Segment.code isOutput body).chars ≠ [] := by
      rw [chars_code]
      cases isOutput <;> exact List.cons_ne_nil _ _
    refine ⟨p.offset + 1, p.offset, Nat.lt_succ_self _, p.offset_lt_advance hroom, ?_⟩
    rw [hnone]
    exact lieIn_nil _ _
  rw [← charsOf_piecesOf_singleton] at hbounds h
  refine Standing.cons [.code isOutput body] hbounds ⟨charsOf body, ?_⟩ ?_ hnested ?_ h
  · rw [charsOf_piecesOf_singleton, chars_code]
  · rwa [tokensOf, tokensOf, List.append_nil]
  · rw [hnone]
    exact List.forall_mem_nil _

/-- A block comes before others with its opening, the segments of its children, and its end. -/
private theorem Standing.block {p : Point} {opening closing : List Piece} {mid rest : List Segment}
    {node : Node} {nodes : List Node} :
    let first := Segment.code false opening
    let last := Segment.code false closing
    let stop := (p.advance first.chars).advance (charsOf (piecesOf mid))
    node.bounds? = some (.tag, ⟨p, stop.advance last.chars⟩) →
    Derives kindOf (first.tokens p ++ tokensOf (p.advance first.chars) mid ++ last.tokens stop)
      [node] →
    Standing kindOf (p.advance first.chars) mid node.children →
    Standing kindOf (stop.advance last.chars) rest nodes →
    Standing kindOf p (first :: (mid ++ last :: rest)) (node :: nodes) := by
  intro first last stop hbounds hown hchildren h
  have hroom (body : List Piece) : (Segment.code false body).chars ≠ [] := by
    rw [chars_code]
    exact List.cons_ne_nil _ _
  have hnested : Nested node := by
    intro m span hspan
    rw [hbounds] at hspan
    cases hspan
    exact ⟨_, _, p.offset_lt_advance (hroom opening), stop.offset_lt_advance (hroom closing),
      hchildren.lie⟩
  have hchars : charsOf (piecesOf ([first] ++ mid ++ [last])) =
      first.chars ++ charsOf (piecesOf mid) ++ last.chars := by
    rw [piecesOf_append, piecesOf_append, charsOf_append, charsOf_append,
      charsOf_piecesOf_singleton, charsOf_piecesOf_singleton]
  have hstop : p.advance (charsOf (piecesOf ([first] ++ mid ++ [last]))) =
      stop.advance last.chars := by
    rw [hchars, Point.advance_append, Point.advance_append]
  have hcovers : node.bounds? =
      some (.tag, .covering p (charsOf (piecesOf ([first] ++ mid ++ [last])))) := by
    rw [hbounds, Span.covering, hstop]
  have haround : ∃ inner,
      charsOf (piecesOf ([first] ++ mid ++ [last])) = Marker.tag.around inner := by
    refine ⟨charsOf opening ++ Marker.tag.closer ++ charsOf (piecesOf mid) ++ Marker.tag.opener ++
      charsOf closing, ?_⟩
    rw [hchars, chars_code, chars_code]
    simp [Marker.around, Token.markerOf]
  have hsegments : first :: (mid ++ last :: rest) = [first] ++ mid ++ [last] ++ rest := by simp
  rw [hsegments]
  refine .cons _ hcovers haround ?_ hnested ?_ ?_
  · have htokens : tokensOf p ([first] ++ mid ++ [last]) =
        first.tokens p ++ tokensOf (p.advance first.chars) mid ++ last.tokens stop := by
      rw [tokensOf_append, tokensOf_append, piecesOf_append, charsOf_append,
        Point.advance_append, charsOf_piecesOf_singleton]
      simp [tokensOf, stop]
    rwa [htokens]
  · intro part hpart
    obtain ⟨hstands, hpartNested⟩ := hchildren.parts part hpart
    rw [← charsOf_piecesOf_singleton] at hstands
    exact ⟨hstands.within [first] [last], hpartNested⟩
  · rwa [hstop]

/-- Nodes stand in the segments whose tokens make them up. -/
private theorem Standing.of_derives {tokens : List Placed} {nodes : List Node}
    (h : Derives kindOf tokens nodes) {p : Point} {segments : List Segment}
    (hsegments : tokensOf p segments = tokens) : Standing kindOf p segments nodes := by
  induction h generalizing p segments with
  | nil => exact .nil p segments
  | text rest ih =>
    obtain ⟨front, s, back, own, rfl, -, hown, hback⟩ := exists_of_tokensOf_eq [] hsegments trivial
    obtain rfl : own = [] := by
      cases s with
      | text run => exact (List.cons.inj hown).2.symm
      | code isOutput body => cases isOutput <;> cases hown
      | comment body => cases hown
    have hrest := ih hback
    rw [← charsOf_piecesOf_singleton] at hrest
    exact .prepend front (.text _ (.prepend [s] hrest))
  | @output code e first middle last tokens nodes hparse rest ih =>
    obtain ⟨front, body, back, rfl, -, hown, hstart, hstop, hback⟩ :=
      exists_code_of_tokensOf_eq true [] hsegments
    refine .prepend front (.marker ?_ ?_ rfl (ih hback))
    · rw [bounds?, hstart, hstop]
      rfl
    · rw [hown]
      exact .output first middle last hparse .nil
  | @standalone code first middle last tokens nodes hname hkind rest ih =>
    obtain ⟨front, body, back, rfl, -, hown, hstart, hstop, hback⟩ :=
      exists_code_of_tokensOf_eq false [] hsegments
    refine .prepend front (.marker ?_ ?_ rfl (ih hback))
    · rw [bounds?, hstart, hstop]
      rfl
    · rw [hown]
      exact .standalone first middle last hname hkind .nil
  | @block code ending first middle last first' middle' last' inner tokens children nodes hname hkind
      body hend hfree rest ihbody ih =>
    obtain ⟨front, opening, later, rfl, -, hopening, hstart, -, hlater⟩ :=
      exists_code_of_tokensOf_eq false [] hsegments
    obtain ⟨mid, closing, back, rfl, hmid, hclosing, -, hstop, hback⟩ :=
      exists_code_of_tokensOf_eq false inner hlater
    refine .prepend front (.block ?_ ?_ (ihbody hmid) (ih hback))
    · rw [bounds?, hstart, hstop]
    · have hblock := Derives.block first middle last first' middle' last' hname hkind body hend hfree
        .nil
      rw [hopening, hmid, hclosing]
      simpa [Token.opening, Token.closing] using hblock

/-! ### Nodes of a text -/

/-- What it means that the spans of the nodes of a text delimit their source. -/
structure Delimited (kindOf : String → Option TagKind) (source : String) (nodes : List Node) :
    Prop where
  /-- From its start to its stop a node is written with the opener and the closer of its kind around
  what it holds. -/
  enclosed : ∀ node ∈ partsOf nodes, ∀ m span, node.bounds? = some (m, span) → ∃ inner,
    (Text.slice source span.start.offset span.stop.offset).toList = m.around inner
  /-- A point is where reading the text up to its offset leads to. -/
  points : ∀ node ∈ partsOf nodes, ∀ m span, node.bounds? = some (m, span) →
    ∀ p ∈ [span.start, span.stop], p = Point.origin.advance (Text.slice source 0 p.offset).toList
  /-- The nodes of the text follow one another, and so do the children of a node. -/
  ordered : InOrder nodes ∧ ∀ node ∈ partsOf nodes, InOrder node.children
  /-- The children of a node lie strictly inside of it. -/
  nested : ∀ node ∈ partsOf nodes, ∀ m span, node.bounds? = some (m, span) →
    ∀ child ∈ spansOf node.children,
      span.start.offset < child.start.offset ∧ child.stop.offset < span.stop.offset
  /-- The source of a node is, as a text of its own, this node with its places counted from its
  start. -/
  alone : ∀ node ∈ partsOf nodes, ∀ m span, node.bounds? = some (m, span) → ∃ found,
    parse kindOf (Text.slice source span.start.offset span.stop.offset) = .ok [found] ∧
      found.translate span.start = node

/-- Nodes that stand in the segments of a text. -/
private theorem Standing.exists_of_stands {source : String} {segments : List Segment}
    (hcut : Cut segments) (hpieces : piecesOf segments = split source.toList) {node : Node}
    {m : Marker} {span : Span} (h : Stands kindOf .origin segments node)
    (hbounds : node.bounds? = some (m, span)) :
    ∃ before own after : List Char, source.toList = before ++ own ++ after ∧
      span.start = pointAfter before ∧ span.stop = pointAfter (before ++ own) ∧
      (∃ inner, own = m.around inner) ∧
      ∃ found, parse kindOf (String.ofList own) = .ok [found] ∧
        found.translate span.start = node := by
  obtain ⟨before, own, after, inner, rfl, rfl, haround, hown⟩ := h m span hbounds
  have hapart : Apart (piecesOf (before ++ own ++ after)) := hpieces ▸ apart_split _
  rw [piecesOf_append, piecesOf_append] at hapart
  rw [List.append_assoc] at hcut
  obtain ⟨found, hfound, hsame⟩ :=
    exists_parse_of_derives hcut.of_append.of_append_left hapart.of_append.1.of_append.2 hown
  have hsource : source.toList =
      charsOf (piecesOf before) ++ charsOf (piecesOf own) ++ charsOf (piecesOf after) := by
    rw [← charsOf_split source.toList, ← hpieces, piecesOf_append, piecesOf_append, charsOf_append,
      charsOf_append]
  refine ⟨_, _, _, hsource, rfl, (pointAfter_append _ _).symm, ⟨inner, haround⟩, ?_⟩
  match found, hsame with
  | [node'], hsame => exact ⟨node', hfound, List.singleton_inj.mp hsame⟩

/-- The spans of the nodes of a text delimit their source. -/
theorem delimited_of_parse (r : Registry) {source : String} {nodes : List Node}
    (h : parse r.tagKind? source = .ok nodes) : Delimited r.tagKind? source nodes := by
  obtain ⟨tokens, htokens, hnodes⟩ := Computation.bind_eq_ok.mp h
  obtain ⟨segments, hcut, hpieces, rfl⟩ := Segment.exists_of_walk htokens
  obtain ⟨nodes, hderives, rfl⟩ := completes_of_walk hnodes
  have hstanding := Standing.of_derives hderives rfl
  have hplace {node : Node} (hnode : node ∈ partsOf nodes) {m : Marker} {span : Span}
      (hbounds : node.bounds? = some (m, span)) :=
    Standing.exists_of_stands hcut hpieces (hstanding.parts node hnode).1 hbounds
  have hslice {before own after : List Char} (hsource : source.toList = before ++ own ++ after) :
      Text.slice source (pointAfter before).offset (pointAfter (before ++ own)).offset =
        String.ofList own := by
    rw [← slice_pointAfter before own after, ← hsource, String.ofList_toList]
  constructor
  case enclosed =>
    intro node hnode m span hbounds
    obtain ⟨before, own, after, hsource, hstart, hstop, ⟨inner, haround⟩, -⟩ := hplace hnode hbounds
    refine ⟨inner, ?_⟩
    rw [hstart, hstop, hslice hsource, String.toList_ofList, haround]
  case points =>
    intro node hnode m span hbounds p hp
    obtain ⟨before, own, after, hsource, hstart, hstop, -⟩ := hplace hnode hbounds
    have hpoint (a c : List Char) (hcut : source.toList = a ++ c) :
        pointAfter a = Point.origin.advance (Text.slice source 0 (pointAfter a).offset).toList := by
      rw [← String.ofList_toList (s := source), hcut]
      exact pointAfter_eq_advance_slice a c
    rcases List.mem_pair.mp hp with rfl | rfl
    · rw [hstart]
      exact hpoint before _ (by rw [hsource, List.append_assoc])
    · rw [hstop]
      exact hpoint _ after hsource
  case ordered =>
    refine ⟨hstanding.lie.1, fun node hnode ↦ ?_⟩
    cases hbounds : node.bounds? with
    | none =>
      have hnone : node.children = [] := by cases node <;> first | rfl | cases hbounds
      rw [hnone]
      exact .nil
    | some bounds =>
      obtain ⟨start, stop, -, -, hlie⟩ := (hstanding.parts node hnode).2 _ _ hbounds
      exact hlie.1
  case nested =>
    intro node hnode m span hbounds child hchild
    obtain ⟨start, stop, hstart, hstop, hlie⟩ := (hstanding.parts node hnode).2 m span hbounds
    obtain ⟨hfirst, hlast⟩ := hlie.2 child hchild
    exact ⟨hstart.trans_le hfirst, hlast.trans_lt hstop⟩
  case alone =>
    intro node hnode m span hbounds
    obtain ⟨before, own, after, hsource, hstart, hstop, -, found, hfound, hsame⟩ :=
      hplace hnode hbounds
    refine ⟨found, ?_, hsame⟩
    rw [hstart, hstop, hslice hsource]
    exact hfound

/-- A block after a comment and a character of more than one byte, in it an output, line feeds, a
comment and another block with a mark in a literal. -/
private def nestedText : String :=
  "é\x7b# \x7b% #\x7d\x7b% filter upper %\x7d\n\x7b\x7b b \x7d\x7d\x7b# #\x7d\n" ++
    "\x7b% spaceless %\x7dß\x7b%set d = '%\x7d'%\x7d\x7b% endspaceless %\x7d" ++
    "\x7b% endfilter %\x7d\n\x7b\x7be\x7d\x7d"

/-- The spans of nested nodes delimit their source. -/
theorem exists_delimited_nestedText :
    let r := Registry.ofOptions 0 ⟨"/"⟩ .default
    ∃ nodes, parse r.tagKind? nestedText = .ok nodes ∧ Delimited r.tagKind? nestedText nodes := by
  intro r
  have hok : (parse r.tagKind? nestedText).isOk = true := by decide +kernel
  obtain ⟨nodes, hnodes⟩ := Computation.exists_eq_ok_of_isOk hok
  exact ⟨nodes, hnodes, delimited_of_parse r hnodes⟩

end Node

end Stencil
