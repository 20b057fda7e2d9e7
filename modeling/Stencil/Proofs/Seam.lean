import Stencil.Proofs.Printing
import Stencil.Proofs.Computation

/-!
# Two texts in one

A text that follows another one is cut as it is cut alone, unless literal text meets literal text at
the seam: then both runs become one, whose characters may form other marks, but none that opens a
marker. The nodes of the whole are those of the parts, with such literal text joined.
-/

namespace Stencil

open Piece

/-! ### Segments at a seam -/

namespace Segment

/-- How segments and those of a text that follows become segments of the whole. -/
inductive Joins : List Segment → List Segment → List Segment → Prop where
  | apart {first second : List Segment} : Joins first second (first ++ second)
  | text {front back : List Segment} {run more : List Piece} :
      Joins (front ++ [.text run]) (.text more :: back)
        (front ++ .text (split (charsOf run ++ charsOf more)) :: back)

variable {front back segments : List Segment} {run more : List Piece}

/-- Segments after a marker can follow it, whether they begin with text or not. -/
theorem Cut.append_of_marker {s : Segment} (hmarker : beginWithText [s] = false)
    (h : Cut (front ++ [s])) (hback : Cut back) : Cut (front ++ s :: back) := by
  induction front with
  | nil =>
    cases s with
    | text run => cases hmarker
    | code isOutput body => exact ⟨h.1, hback⟩
    | comment body => exact ⟨h.1, hback⟩
  | cons t front ih =>
    cases t with
    | text run =>
      obtain ⟨hrun, htext, hcut⟩ := h
      refine ⟨hrun, ?_, ih hcut⟩
      cases front with
      | nil => cases s <;> exact htext
      | cons u front => cases u <;> exact htext
    | code isOutput body => exact ⟨h.1, ih h.2⟩
    | comment body => exact ⟨h.1, ih h.2⟩

/-- Another run of literal text can stand where one stands. -/
theorem Cut.replace_text (h : Cut (front ++ [.text run])) (hmore : (text more).WellFormed)
    (hback : Cut back) (htext : beginWithText back = false) : Cut (front ++ .text more :: back) := by
  induction front with
  | nil => exact ⟨hmore, htext, hback⟩
  | cons t front ih =>
    cases t with
    | text other =>
      obtain ⟨hother, hnext, hcut⟩ := h
      refine ⟨hother, ?_, ih hcut⟩
      cases front with
      | nil => cases hnext
      | cons u front => cases u <;> exact hnext
    | code isOutput body => exact ⟨h.1, ih h.2⟩
    | comment body => exact ⟨h.1, ih h.2⟩

/-- Segments that do not end with literal text do not end with a lone character. -/
private theorem piecesOf_ne_lone (h : ∀ front run, segments ≠ front ++ [.text run])
    (init : List Piece) (c : Char) : piecesOf segments ≠ init ++ [.char c] := by
  rcases List.eq_nil_or_concat' segments with rfl | ⟨front, s, rfl⟩
  · simp
  · intro heq
    have hlast := congrArg List.getLast? heq
    rw [piecesOf_append, piecesOf_cons, piecesOf_nil, List.append_nil] at hlast
    cases s with
    | text run => exact h front run rfl
    | code isOutput body => simp [pieces, List.getLast?_cons] at hlast
    | comment body => simp [pieces, List.getLast?_cons] at hlast

/-- The text of segments that do not begin with literal text begins with the brace of a marker. -/
private theorem head?_charsOf (h : beginWithText segments = false) :
    ∀ c ∈ (charsOf (piecesOf segments)).head?, c = '\x7b' := by
  intro c hc
  cases segments with
  | nil => cases hc
  | cons s rest =>
    cases s with
    | text run => cases h
    | code isOutput body => cases isOutput <;> exact (Option.some.inj hc).symm
    | comment body => exact (Option.some.inj hc).symm

private theorem exists_opener_eq (m : Marker) :
    ∃ d, m.opener = ['\x7b', d] ∧ mark? '\x7b' d = some (.opens m) := by
  cases m <;> exact ⟨_, rfl, rfl⟩

/-- Literal text in which no lone characters form a mark does not contain the opener of a marker. -/
private theorem not_opener_isInfix (hrun : Apart run) (hopens : OpensNothing run) (m : Marker) :
    ¬ m.opener <:+: charsOf run := by
  obtain ⟨d, hopener, hmark⟩ := exists_opener_eq m
  rw [hopener]
  induction run with
  | nil => simp
  | cons piece run ih =>
    have hnext : OpensNothing run := fun m hm ↦ hopens m (List.mem_cons_of_mem _ hm)
    cases piece with
    | opens m' => exact absurd List.mem_cons_self (hopens m')
    | closes m' =>
      have hrest := ih hrun hnext
      cases m' <;> simpa [Piece.chars, Marker.closer, List.infix_cons_iff] using hrest
    | char c =>
      have hrest := ih hrun.2 hnext
      have hfirst : ¬ ['\x7b', d] <+: c :: charsOf run := by
        rintro ⟨more, hmore⟩
        obtain ⟨rfl, hd⟩ := List.cons.inj hmore
        have hnone := hrun.1 d (by rw [← hd]; rfl)
        rw [hnone] at hmark
        cases hmark
      rw [charsOf_cons, Piece.chars, List.singleton_append, List.infix_cons_iff]
      exact fun h ↦ h.elim hfirst hrest

/-- Literal text ends with an opening brace only if this is a lone character. -/
private theorem exists_lone_of_getLast? (hopens : OpensNothing run)
    (hlast : (charsOf run).getLast? = some '\x7b') : ∃ init, run = init ++ [.char '\x7b'] := by
  rcases List.eq_nil_or_concat' run with rfl | ⟨init, piece, rfl⟩
  · cases hlast
  · rw [charsOf_append, charsOf_cons, charsOf_nil, List.append_nil,
      List.getLast?_append_of_ne_nil _ piece.chars_ne_nil] at hlast
    cases piece with
    | opens m => exact absurd (List.mem_append_right _ List.mem_cons_self) (hopens m)
    | closes m => cases m <;> cases hlast
    | char c =>
      cases hlast
      exact ⟨init, rfl⟩

/-- No opener of a marker is formed where one run of literal text follows another one, unless the
first one ends with an opening brace. -/
private theorem opensNothing_split (hrun : Apart run) (hopens : OpensNothing run)
    (hmore : Apart more) (hopens' : OpensNothing more)
    (hlast : (charsOf run).getLast? ≠ some '\x7b') :
    OpensNothing (split (charsOf run ++ charsOf more)) := by
  intro m hm
  have hfirst := not_opener_isInfix hrun hopens m
  have hsecond := not_opener_isInfix hmore hopens' m
  rcases List.infix_append_iff.mp (opener_isInfix_of_mem_split hm) with h | h | ⟨l, l', heq, h, h'⟩
  · exact hfirst h
  · exact hsecond h
  · obtain ⟨d, hopener, -⟩ := exists_opener_eq m
    rw [hopener] at heq hfirst hsecond
    match l, heq with
    | [], heq => exact hsecond (heq ▸ h'.isInfix)
    | [c], heq =>
      obtain ⟨init, hinit⟩ := h
      rw [← hinit, (List.cons.inj heq).1, List.getLast?_concat] at hlast
      exact hlast rfl
    | c :: e :: l, heq =>
      obtain ⟨rfl, rfl, hnil⟩ : '\x7b' = c ∧ d = e ∧ [] = l ++ l' := by simpa using heq
      rw [(List.append_eq_nil_iff.mp hnil.symm).1] at h
      exact hfirst h.isInfix

/-- Two runs of literal text are cut as one. -/
private theorem split_text (hfront : Cut (front ++ [.text run])) (hback : Cut (.text more :: back))
    {a b : List Char} (ha : split a = piecesOf (front ++ [.text run]))
    (hb : split b = piecesOf (.text more :: back)) :
    split (a ++ b) =
      piecesOf (front ++ .text (split (charsOf run ++ charsOf more)) :: back) := by
  have hapart : Apart (piecesOf front ++ run) := by
    have h := apart_split a
    rwa [ha, piecesOf_append, piecesOf_cons, piecesOf_nil, List.append_nil] at h
  have hapart' : Apart (more ++ piecesOf back) := by
    have h := apart_split b
    rwa [hb] at h
  have hmarker : ∀ other r, front ≠ other ++ [.text r] := by
    rintro other r rfl
    rw [List.append_assoc] at hfront
    cases hfront.of_append.2.1
  have hends : ∀ init c, split (charsOf run ++ charsOf more) = init ++ [.char c] →
      ∀ d ∈ (charsOf (piecesOf back)).head?, mark? c d = none := by
    intro init c hinit d hd
    obtain rfl := head?_charsOf hback.2.1 d hd
    refine Node.mark?_brace ?_
    rintro rfl
    -- The brace would be a lone character before a marker also in the second text.
    have hlast : (charsOf run ++ charsOf more).getLast? = some '\x7b' := by
      rw [← charsOf_split (charsOf run ++ charsOf more), hinit, charsOf_append, charsOf_cons,
        charsOf_nil, List.append_nil, Piece.chars, List.getLast?_concat]
    rw [List.getLast?_append_of_ne_nil _ (charsOf_ne_nil hback.1.1)] at hlast
    obtain ⟨init', rfl⟩ := exists_lone_of_getLast? hback.1.2 hlast
    rw [List.append_assoc] at hapart'
    cases hapart'.of_append.2.1 _ hd
  have hjoined : Apart (piecesOf front ++ (split (charsOf run ++ charsOf more) ++ piecesOf back)) :=
    hapart.of_append.1.append ((apart_split _).append hapart'.of_append.2 hends)
      fun init c hinit ↦ absurd hinit (piecesOf_ne_lone hmarker init c)
  have hsplit := hjoined.split_charsOf
  have hchars : a ++ b = charsOf (piecesOf front) ++
      (charsOf (split (charsOf run ++ charsOf more)) ++ charsOf (piecesOf back)) := by
    rw [charsOf_split, ← charsOf_split a, ← charsOf_split b, ha, hb]
    simp [piecesOf_append, pieces]
  rw [hchars, piecesOf_append, piecesOf_cons, pieces, ← hsplit, charsOf_append, charsOf_append]

/-- Two runs of literal text make up one. -/
private theorem wellFormed_split (hfront : Cut (front ++ [.text run]))
    (hback : Cut (.text more :: back)) {a b : List Char}
    (ha : split a = piecesOf (front ++ [.text run])) (hb : split b = piecesOf (.text more :: back))
    (hlast : a.getLast? ≠ some '\x7b') :
    (text (split (charsOf run ++ charsOf more))).WellFormed := by
  have hrun := hfront.of_append.1
  have hapart := apart_split a
  have hapart' := apart_split b
  rw [ha, piecesOf_append, piecesOf_cons, piecesOf_nil, List.append_nil] at hapart
  rw [hb, piecesOf_cons] at hapart'
  have hlastRun : (charsOf run).getLast? ≠ some '\x7b' := by
    rw [← charsOf_split a, ha, piecesOf_append, piecesOf_cons, piecesOf_nil, List.append_nil,
      charsOf_append, pieces, List.getLast?_append_of_ne_nil _ (charsOf_ne_nil hrun.1)] at hlast
    exact hlast
  refine ⟨?_, opensNothing_split hapart.of_append.2 hrun.2 hapart'.of_append.1 hback.1.2 hlastRun⟩
  intro hnil
  have hchars := charsOf_split (charsOf run ++ charsOf more)
  rw [hnil] at hchars
  exact charsOf_ne_nil hrun.1 (List.append_eq_nil_iff.mp hchars.symm).1

/-- Segments of two texts become segments of the whole, unless a brace at the end of the first text
goes on with the second one. -/
theorem exists_joins {first second : List Segment} (hfirst : Cut first) (hsecond : Cut second)
    {a b : List Char} (ha : split a = piecesOf first) (hb : split b = piecesOf second)
    (hlast : a.getLast? ≠ some '\x7b') :
    ∃ joined, Joins first second joined ∧ Cut joined ∧ split (a ++ b) = piecesOf joined := by
  cases htext : beginWithText second with
  | false =>
    refine ⟨first ++ second, .apart, hfirst.append hsecond htext, ?_⟩
    rw [piecesOf_append, ← ha, ← hb]
    apply split_append
    intro c hc d hd
    rw [← charsOf_split b, hb] at hd
    obtain rfl := head?_charsOf htext d hd
    exact Node.mark?_brace fun hbrace ↦ hlast (hbrace ▸ hc)
  | true =>
    obtain ⟨more, back, rfl⟩ : ∃ more back, second = .text more :: back := by
      cases second with
      | nil => cases htext
      | cons s back => cases s <;> first | exact ⟨_, _, rfl⟩ | cases htext
    rcases List.eq_nil_or_concat' first with rfl | ⟨front, s, rfl⟩
    · refine ⟨_, .apart, hsecond, ?_⟩
      rw [← charsOf_split a, ha, List.nil_append]
      exact hb
    · by_cases hmarker : beginWithText [s] = false
      · refine ⟨front ++ [s] ++ .text more :: back, .apart, ?_, ?_⟩
        · rw [List.append_assoc]
          exact hfirst.append_of_marker hmarker hsecond
        · have hends : ∀ other r, front ++ [s] ≠ other ++ [.text r] := by
            intro other r heq
            obtain rfl := List.singleton_inj.mp (List.append_inj_right' heq rfl)
            cases hmarker
          rw [piecesOf_append, ← ha, ← hb]
          apply split_append_of_lone
          intro init c hinit
          exact absurd (ha ▸ hinit) (piecesOf_ne_lone hends init c)
      · obtain ⟨run, rfl⟩ : ∃ run, s = .text run := by
          cases s <;> first | exact ⟨_, rfl⟩ | exact absurd rfl hmarker
        have hjoined := wellFormed_split hfirst hsecond ha hb hlast
        exact ⟨_, .text, hfirst.replace_text hjoined hsecond.2.2 hsecond.2.1,
          split_text hfirst hsecond ha hb⟩

/-- The tokens of segments are the same wherever they begin, up to their places. -/
theorem map_token_tokensOf (p q : Point) (segments : List Segment) :
    (tokensOf p segments).map Placed.token = (tokensOf q segments).map Placed.token := by
  induction segments generalizing p q with
  | nil => rfl
  | cons s rest ih =>
    rw [tokensOf, tokensOf, List.map_append, List.map_append, ih (p.advance s.chars)
      (q.advance s.chars)]
    cases s <;> rfl

end Segment

/-! ### Nodes at a seam -/

namespace Node

/-- How nodes and those of a text that follows become nodes of the whole. -/
inductive Joins : List Node → List Node → List Node → Prop where
  | apart {first second : List Node} : Joins first second (first ++ second)
  | text {front back : List Node} {s t : String} :
      Joins (front ++ [.text s]) (.text t :: back) (front ++ .text (s ++ t) :: back)

variable {kindOf : String → Option TagKind}

/-- The three tokens of a marker in other places. -/
private theorem exists_marker {others : List Placed} {a b c : Token} {rest : List Token}
    (h : others.map Placed.token = a :: b :: c :: rest) :
    ∃ first middle last tokens, others = ⟨a, first⟩ :: ⟨b, middle⟩ :: ⟨c, last⟩ :: tokens ∧
      tokens.map Placed.token = rest := by
  match others, h with
  | [], h => cases h
  | [x], h => cases h
  | [x, y], h => cases h
  | x :: y :: z :: tokens, h =>
    obtain ⟨rfl, rfl, rfl, htokens⟩ :
        x.token = a ∧ y.token = b ∧ z.token = c ∧ tokens.map Placed.token = rest := by simpa using h
    exact ⟨x.span, y.span, z.span, tokens, rfl, htokens⟩

/-- Tokens in other places make up the same nodes in other places. -/
theorem Derives.replace {tokens : List Placed} {nodes : List Node} (h : Derives kindOf tokens nodes)
    {others : List Placed} (hsame : others.map Placed.token = tokens.map Placed.token) :
    ∃ found, Derives kindOf others found ∧ unplacedAll found = unplacedAll nodes := by
  induction h generalizing others with
  | nil =>
    obtain rfl := List.map_eq_nil_iff.mp hsame
    exact ⟨[], .nil, rfl⟩
  | text rest ih =>
    obtain ⟨⟨_, span⟩, tokens, rfl, rfl, hrest⟩ := List.map_eq_cons_iff.mp hsame
    obtain ⟨found, hfound, heq⟩ := ih hrest
    exact ⟨_, .text hfound, by rw [unplacedAll, unplacedAll, heq]⟩
  | output _ _ _ hparse rest ih =>
    obtain ⟨first, middle, last, tokens, rfl, hrest⟩ := exists_marker hsame
    obtain ⟨found, hfound, heq⟩ := ih hrest
    exact ⟨_, .output first middle last hparse hfound, by rw [unplacedAll, unplacedAll, heq]; rfl⟩
  | standalone _ _ _ hname hkind rest ih =>
    obtain ⟨first, middle, last, tokens, rfl, hrest⟩ := exists_marker hsame
    obtain ⟨found, hfound, heq⟩ := ih hrest
    exact ⟨_, .standalone first middle last hname hkind hfound,
      by rw [unplacedAll, unplacedAll, heq]; rfl⟩
  | block _ _ _ _ _ _ hname hkind body hend hfree rest ihbody ih =>
    obtain ⟨first, middle, last, tokens, rfl, hafter⟩ := exists_marker hsame
    rw [List.map_append] at hafter
    obtain ⟨inner, tokens, rfl, hinner, hending⟩ := List.map_eq_append_iff.mp hafter
    obtain ⟨first', middle', last', tokens, rfl, hrest⟩ := exists_marker hending
    obtain ⟨children, hchildren, heqChildren⟩ := ihbody hinner
    obtain ⟨found, hfound, heq⟩ := ih hrest
    refine ⟨_, .block first middle last first' middle' last' hname hkind hchildren hend hfree
      hfound, ?_⟩
    rw [unplacedAll, unplacedAll, unplaced, unplaced, heq, heqChildren]

/-- The last token of tokens in two parts is in the second part, or it ends the first one. -/
private theorem exists_of_append_eq (first : List Placed) {second tokens : List Placed} {t : Placed}
    (h : tokens ++ [t] = first ++ second) (hlast : first.getLast? ≠ some t) :
    ∃ rest, second = rest ++ [t] ∧ tokens = first ++ rest := by
  rcases List.eq_nil_or_concat' second with rfl | ⟨rest, u, rfl⟩
  · rw [← List.append_nil first, ← h, List.getLast?_concat] at hlast
    exact absurd rfl hlast
  · rw [← List.append_assoc] at h
    obtain ⟨htokens, hu⟩ := List.append_inj' h rfl
    exact ⟨rest, by rw [List.singleton_inj.mp hu], htokens⟩

/-- Nodes whose last token is literal text end with this text. -/
private theorem Derives.of_append_text {tokens : List Placed} {s : String} {span : Span}
    {nodes : List Node} (h : Derives kindOf (tokens ++ [⟨.text s, span⟩]) nodes) :
    ∃ front, nodes = front ++ [.text s] ∧ Derives kindOf tokens front := by
  generalize hall : tokens ++ [⟨.text s, span⟩] = all at h
  induction h generalizing tokens with
  | nil => simp at hall
  | text rest ih =>
    cases tokens with
    | nil =>
      cases hall
      cases rest
      exact ⟨[], rfl, .nil⟩
    | cons first tokens =>
      obtain ⟨rfl, htokens⟩ := List.cons.inj hall
      obtain ⟨front, rfl, hfront⟩ := ih htokens
      exact ⟨_, rfl, .text hfront⟩
  | output first middle last hparse rest ih =>
    obtain ⟨ts, hts, rfl⟩ := exists_of_append_eq
      [⟨.outputOpen, first⟩, ⟨.code _, middle⟩, ⟨.outputClose, last⟩] hall (by simp)
    obtain ⟨front, rfl, hfront⟩ := ih hts.symm
    exact ⟨_, rfl, .output first middle last hparse hfront⟩
  | standalone first middle last hname hkind rest ih =>
    obtain ⟨ts, hts, rfl⟩ := exists_of_append_eq
      [⟨.tagOpen, first⟩, ⟨.code _, middle⟩, ⟨.tagClose, last⟩] hall (by simp)
    obtain ⟨front, rfl, hfront⟩ := ih hts.symm
    exact ⟨_, rfl, .standalone first middle last hname hkind hfront⟩
  | @block code ending first middle last first' middle' last' inner rest' children nodes hname hkind
      body hend hfree rest ihbody ih =>
    have hblock : tokens ++ [⟨.text s, span⟩] = (⟨.tagOpen, first⟩ :: ⟨.code code, middle⟩ ::
        ⟨.tagClose, last⟩ :: (inner ++ [⟨.tagOpen, first'⟩, ⟨.code ending, middle'⟩,
          ⟨.tagClose, last'⟩])) ++ rest' := by simpa using hall
    obtain ⟨ts, hts, rfl⟩ := exists_of_append_eq _ hblock (by simp [List.getLast?_cons])
    obtain ⟨front, rfl, hfront⟩ := ih hts.symm
    have h := Derives.block first middle last first' middle' last' hname hkind body hend hfree
      hfront
    exact ⟨_, rfl, by simpa using h⟩

/-- The nodes of a text after another one are those of both, unless a brace at the end of the first
text goes on with the second one. Literal text at the seam is joined, and the nodes of the second
text have other places. -/
theorem exists_parse_append {s t : String} {first second : List Node}
    (hs : parse kindOf s = .ok first) (ht : parse kindOf t = .ok second)
    (hlast : s.toList.getLast? ≠ some '\x7b') :
    ∃ joined found, Joins first second joined ∧ parse kindOf (s ++ t) = .ok found ∧
      unplacedAll found = unplacedAll joined := by
  have hcut {text : String} {nodes : List Node} (h : parse kindOf text = .ok nodes) :
      ∃ segments, Segment.Cut segments ∧ split text.toList = Segment.piecesOf segments ∧
        Derives kindOf (Segment.tokensOf .origin segments) nodes := by
    obtain ⟨tokens, htokens, hnodes⟩ := Computation.bind_eq_ok.mp h
    obtain ⟨segments, hcut, hpieces, rfl⟩ := Segment.exists_of_walk htokens
    obtain ⟨found, hfound, rfl⟩ := completes_of_walk hnodes
    exact ⟨segments, hcut, hpieces.symm, hfound⟩
  obtain ⟨segments, hsegments, hsplit, hfirst⟩ := hcut hs
  obtain ⟨segments', hsegments', hsplit', hsecond⟩ := hcut ht
  obtain ⟨whole, hjoins, hwhole, hsplitWhole⟩ :=
    Segment.exists_joins hsegments hsegments' hsplit hsplit' hlast
  -- The tokens of the parts make up the joined nodes, and the tokens of the whole are the same.
  suffices hjoined : ∃ joined tokens, Joins first second joined ∧ Derives kindOf tokens joined ∧
      (Segment.tokensOf .origin whole).map Placed.token = tokens.map Placed.token by
    obtain ⟨joined, tokens, hjoined, htokens, hsame⟩ := hjoined
    obtain ⟨found, hfound, heq⟩ := htokens.replace hsame
    refine ⟨joined, found, hjoined, ?_, heq⟩
    rw [parse, String.toList_append, Segment.ofText_eq hwhole hsplitWhole]
    exact ofTokens_of_derives hfound
  cases hjoins with
  | apart =>
    refine ⟨_, _, .apart, hfirst.append hsecond, ?_⟩
    rw [Segment.tokensOf_append, List.map_append, List.map_append]
    exact congrArg _ (Segment.map_token_tokensOf _ _ _)
  | @text front back run more =>
    rw [Segment.tokensOf_append] at hfirst
    obtain ⟨nodes, rfl, hfront⟩ := hfirst.of_append_text
    cases hsecond with
    | @text _ _ _ others hback =>
      refine ⟨_, Segment.tokensOf .origin front ++
        ⟨.text (String.ofList (charsOf run) ++ String.ofList (charsOf more)), ⟨.origin, .origin⟩⟩ ::
          Segment.tokensOf (Point.origin.advance (charsOf more)) back,
        .text, hfront.append (.text hback), ?_⟩
      rw [Segment.tokensOf_append, List.map_append, List.map_append]
      apply congrArg
      rw [Segment.tokensOf, List.map_append, Segment.map_token_tokensOf, Segment.tokens,
        charsOf_split, String.ofList_append]
      rfl

end Node

end Stencil
