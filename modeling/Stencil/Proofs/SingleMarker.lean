import Stencil.Proofs.Printing

/-!
# A text that is one marker

The marker around sealed code is cut into three tokens, whatever its literals contain. Hence every
expression can be written in an output marker: the two readers of string literals, the one that
walks over template text and the one that takes lexemes, agree on where each literal ends.
-/

namespace Stencil

/-- The tokens of a marker and nothing else. Together they cover the text. -/
theorem Token.ofText_around (isOutput : Bool) {code : List Char} (h : Text.Sealed .bare code) :
    ∃ first middle last, Token.ofText ((Token.markerOf isOutput).around code) =
        .ok [⟨opening isOutput, first⟩, ⟨.code (String.ofList code), middle⟩,
          ⟨closing isOutput, last⟩] ∧
      first.through last = .covering .origin ((Token.markerOf isOutput).around code) := by
  have hcut : Segment.Cut [.code isOutput (Piece.split code)] := ⟨h.wellFormed isOutput, trivial⟩
  have hsplit : Piece.split ((Token.markerOf isOutput).around code) =
      Segment.piecesOf [.code isOutput (Piece.split code)] := by
    have haround := h.split_around isOutput []
    rwa [List.append_nil] at haround
  have htokens := Segment.ofText_eq hcut hsplit
  rw [Segment.tokensOf, Segment.tokensOf, List.append_nil, Segment.tokens,
    Piece.charsOf_split] at htokens
  refine ⟨_, _, _, htokens, ?_⟩
  simp only [Span.through, Span.covering, Marker.around, Point.advance_append]

namespace Node

/-- The opening of a tag that stands alone can be written in a tag marker. The text is then this tag. -/
theorem parse_around_standalone (r : Registry) {head : TagHead} {code : List Char}
    (hhead : head.IsPrintable) (hcode : head.SpelledBy code)
    (hkind : r.tagKind? head.name = some .standalone) :
    parse r.tagKind? (String.ofList (Marker.tag.around code)) =
      .ok [.tag head .standalone [] (.covering .origin (Marker.tag.around code))] := by
  obtain ⟨first, middle, last, htokens, hspan⟩ := Token.ofText_around false (hcode.sealed hhead)
  have hread := hcode.ofCode_eq hhead
  have hderives : Derives r.tagKind? [⟨.tagOpen, first⟩, ⟨.code (String.ofList code), middle⟩,
      ⟨.tagClose, last⟩] [.tag head .standalone [] (first.through last)] := by
    rw [← hread] at hkind ⊢
    exact .standalone first middle last (hread ▸ hhead.name_ne) hkind .nil
  rw [hspan] at hderives
  rw [parse, String.toList_ofList]
  change (Token.ofText ((Token.markerOf false).around code)).bind _ = _
  rw [htokens, Except.bind]
  exact ofTokens_of_derives hderives

/-- The code of an expression can be written in an output marker. The text is then this output. -/
theorem parse_around_expression (r : Registry) {code : List Char} {e : Expression}
    (h : Expression.parse (String.ofList code) = .ok e) :
    parse r.tagKind? (String.ofList (Marker.output.around code)) =
      .ok [.output e (.covering .origin (Marker.output.around code))] := by
  have hsealed := Expression.sealed_of_parse h
  rw [String.toList_ofList] at hsealed
  obtain ⟨first, middle, last, htokens, hspan⟩ := Token.ofText_around true hsealed
  have hderives : Derives r.tagKind? [⟨.outputOpen, first⟩, ⟨.code (String.ofList code), middle⟩,
      ⟨.outputClose, last⟩] [.output e (first.through last)] := .output first middle last h .nil
  rw [hspan] at hderives
  rw [parse, String.toList_ofList]
  change (Token.ofText ((Token.markerOf true).around code)).bind _ = _
  rw [htokens, Except.bind]
  exact ofTokens_of_derives hderives

/-- Every expression can be written in an output marker. The text is then one output of this
expression, which covers all of it, whatever marks and quotes stand in the literals. -/
theorem parse_around_output (r : Registry) {code : String} {e : Expression}
    (h : Expression.parse code = .ok e) :
    parse r.tagKind? ("\x7b\x7b" ++ code ++ "\x7d\x7d") =
      .ok [.output e (.covering .origin ("\x7b\x7b" ++ code ++ "\x7d\x7d").toList)] := by
  have hsource : ("\x7b\x7b" ++ code ++ "\x7d\x7d").toList = Marker.output.around code.toList := by
    rw [String.toList_append, String.toList_append]
    rfl
  have hparse := @parse_around_expression r code.toList e (by rwa [String.ofList_toList])
  rwa [← hsource, String.ofList_toList] at hparse

/-- A filter call with every mark in its literals, and escaped quotes between the marks. -/
private def markedCall : String :=
  " '\x7b\x7b it\\'s \x7d\x7d' |replace( \"\x7b% \\\"%\x7d\\\"\" , '\x7b# \" #\x7d')"

private def markedExpression : Expression :=
  ⟨.literal (.string "\x7b\x7b it's \x7d\x7d"), [⟨"replace",
    [.literal (.string "\x7b% \"%\x7d\""), .literal (.string "\x7b# \" #\x7d")]⟩]⟩

/-- Every mark may stand in a literal of an output, next to quotes of both kinds. -/
theorem parse_around_markedCall :
    Expression.parse markedCall = .ok markedExpression ∧
      parse (Registry.ofOptions 0 ⟨"/"⟩ .default).tagKind? ("\x7b\x7b" ++ markedCall ++ "\x7d\x7d") =
        .ok [.output markedExpression
          (.covering .origin ("\x7b\x7b" ++ markedCall ++ "\x7d\x7d").toList)] :=
  have hparse : Expression.parse markedCall = .ok markedExpression := by cbv
  ⟨hparse, parse_around_output _ hparse⟩

end Node

end Stencil
