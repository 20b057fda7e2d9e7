import Mathlib
import Stencil.Proofs.Grammar
import Stencil.Proofs.Sealed

/-!
# Printing and parsing

How nodes are written as template text: literal text as it is, an output as the code of its
expression, a tag as its opening with, for a block, its children and its end. Parsing what is written
gives the nodes back, up to their places.
-/

namespace Stencil

/-! ### The opening of a tag -/

namespace Text

private theorem trimStart_append {blanks : List Char} (h : ∀ c ∈ blanks, isBlank c = true)
    (cs : List Char) : trimStart (blanks ++ cs) = trimStart cs :=
  List.dropWhile_append_of_pos h

theorem trimEnd_append {blanks : List Char} (h : ∀ c ∈ blanks, isBlank c = true)
    (cs : List Char) : trimEnd (cs ++ blanks) = trimEnd cs := by
  have hreverse : ∀ c ∈ blanks.reverse, isBlank c = true := fun c hc ↦ h c (List.mem_reverse.mp hc)
  rw [trimEnd, List.reverse_append, trimStart_append hreverse, trimEnd]

theorem trimStart_eq_self {cs : List Char} (h : ∀ c ∈ cs.head?, isBlank c = false) :
    trimStart cs = cs := by
  cases cs with
  | nil => rfl
  | cons c rest => exact List.dropWhile_cons_of_neg (by simp [h c rfl])

theorem trimEnd_eq_self {cs : List Char} (h : ∀ c ∈ cs.getLast?, isBlank c = false) :
    trimEnd cs = cs := by
  rw [trimEnd, trimStart_eq_self, List.reverse_reverse]
  rwa [List.head?_reverse]

/-- A text is what is left when its end is trimmed, and blanks. -/
theorem exists_trimEnd_append (cs : List Char) :
    ∃ blanks, (∀ c ∈ blanks, isBlank c = true) ∧ trimEnd cs ++ blanks = cs := by
  refine ⟨(cs.reverse.takeWhile isBlank).reverse, fun c hc ↦ ?_, ?_⟩
  · exact List.mem_takeWhile_imp (List.mem_reverse.mp hc)
  · rw [trimEnd, trimStart, ← List.reverse_append, List.takeWhile_append_dropWhile,
      List.reverse_reverse]

/-- A text whose end is trimmed does not end with a blank. -/
theorem isBlank_getLast?_trimEnd (cs : List Char) :
    ∀ c ∈ (trimEnd cs).getLast?, isBlank c = false := by
  intro c hc
  rw [trimEnd, List.getLast?_reverse] at hc
  exact head?_trimStart _ c hc

/-- A text is what is left when it is trimmed, between blanks. -/
theorem exists_append_trim_append (cs : List Char) :
    ∃ before after, (∀ c ∈ before ++ after, isBlank c = true) ∧ before ++ trim cs ++ after = cs := by
  obtain ⟨after, hafter, hcs⟩ := exists_trimEnd_append (trimStart cs)
  refine ⟨cs.takeWhile isBlank, after, fun c hc ↦ ?_, ?_⟩
  · exact (List.mem_append.mp hc).elim List.mem_takeWhile_imp (hafter c)
  · rw [List.append_assoc, trim, hcs, trimStart, List.takeWhile_append_dropWhile]

/-- Trimming a text again changes nothing. -/
theorem trim_trim (cs : List Char) : trim (trim cs) = trim cs := by
  have hstart : ∀ c ∈ (trim cs).head?, isBlank c = false := by
    intro c hc
    obtain ⟨blanks, -, hcs⟩ := exists_trimEnd_append (trimStart cs)
    apply head?_trimStart cs c
    rw [← hcs, List.head?_append, ← trim, hc]
    rfl
  have hlast : ∀ c ∈ (trim cs).getLast?, isBlank c = false := isBlank_getLast?_trimEnd _
  rw [trim, trimStart_eq_self hstart, trimEnd_eq_self hlast]

/-- A trimmed text does not end with a blank. -/
private theorem isBlank_getLast?_of_trim {cs : List Char} (h : trim cs = cs) :
    ∀ c ∈ cs.getLast?, isBlank c = false := by
  rw [← h]
  exact isBlank_getLast?_trimEnd _

private theorem trim_append {blanks : List Char} (h : ∀ c ∈ blanks, isBlank c = true)
    (cs : List Char) : trim (blanks ++ cs) = trim cs := by
  rw [trim, trimStart_append h, trim]

/-- A word and what follows it from a blank on. -/
private theorem firstWord_of_append {word rest : List Char} (hword : ∀ c ∈ word, isBlank c = false)
    (hrest : ∀ c ∈ rest.head?, isBlank c = true) :
    firstWord (word ++ rest) = word ∧ afterFirstWord (word ++ rest) = trim rest := by
  have hletters : ∀ c ∈ word, (!isBlank c) = true := fun c hc ↦ by rw [hword c hc]; rfl
  rw [firstWord, List.takeWhile_append_of_pos hletters, afterFirstWord,
    List.dropWhile_append_of_pos hletters]
  cases rest with
  | nil => exact ⟨List.append_nil _, rfl⟩
  | cons c rest =>
    have hc : (!isBlank c) = false := by rw [hrest c rfl]; rfl
    rw [List.takeWhile_cons, List.dropWhile_cons, hc]
    exact ⟨List.append_nil _, rfl⟩

end Text

namespace TagHead

/-- Whether an opening can be read again where it is written: its name is a word without quotes and
characters of marks, and what follows the name is trimmed and sealed. -/
structure IsPrintable (head : TagHead) : Prop where
  name_ne : head.name ≠ ""
  isBlank_name : ∀ c ∈ head.name.toList, Text.isBlank c = false
  isPlain_name : ∀ c ∈ head.name.toList, Text.IsPlain c
  trim_raw : Text.trim head.raw.toList = head.raw.toList
  sealed_raw : Text.Sealed .bare head.raw.toList

instance (head : TagHead) : Decidable head.IsPrintable :=
  let isWord : Bool := head.name.toList.all fun c ↦ !Text.isBlank c && Text.IsPlain c
  have hword : isWord = true ↔ (∀ c ∈ head.name.toList, Text.isBlank c = false) ∧
      ∀ c ∈ head.name.toList, Text.IsPlain c := by
    simp [isWord, List.all_eq_true, forall_and]
  decidable_of_iff (head.name ≠ "" ∧ isWord = true ∧
      Text.trim head.raw.toList = head.raw.toList ∧ Text.Sealed .bare head.raw.toList)
    ⟨fun ⟨hne, hchars, htrim, hsealed⟩ ↦
      ⟨hne, (hword.mp hchars).1, (hword.mp hchars).2, htrim, hsealed⟩,
      fun h ↦ ⟨h.name_ne, hword.mpr ⟨h.isBlank_name, h.isPlain_name⟩, h.trim_raw, h.sealed_raw⟩⟩

/-- Whether code writes an opening: the name and, after blanks, what follows it, with blanks around.
One blank at each of these three places is the common way. -/
def SpelledBy (head : TagHead) (code : List Char) : Prop :=
  ∃ before gap after : List Char, (∀ c ∈ before ++ gap ++ after, Text.isBlank c = true) ∧
    (gap = [] → head.raw = "") ∧
    code = before ++ head.name.toList ++ gap ++ head.raw.toList ++ after

/-- The end of a block. -/
def ending (head : TagHead) : TagHead := ⟨"end" ++ head.name, ""⟩

variable {head : TagHead}

theorem IsPrintable.ending (h : head.IsPrintable) : head.ending.IsPrintable where
  name_ne := by
    simp [TagHead.ending]
  isBlank_name c hc := by
    rw [TagHead.ending, String.toList_append] at hc
    rcases List.mem_append.mp hc with hc | hc
    · have hword : "end".toList.any Text.isBlank = false := by decide
      exact Bool.eq_false_iff.mpr (List.any_eq_false.mp hword c hc)
    · exact h.isBlank_name c hc
  isPlain_name c hc := by
    rw [TagHead.ending, String.toList_append] at hc
    rcases List.mem_append.mp hc with hc | hc
    · have hword : "end".toList.all (fun c ↦ Text.IsPlain c) = true := by decide
      exact of_decide_eq_true (List.all_eq_true.mp hword c hc)
    · exact h.isPlain_name c hc
  trim_raw := rfl
  sealed_raw := rfl

namespace SpelledBy

variable {code : List Char}

theorem sealed (h : head.SpelledBy code) (hhead : head.IsPrintable) : Text.Sealed .bare code := by
  obtain ⟨before, gap, after, hblank, -, rfl⟩ := h
  simp only [List.mem_append, or_imp, forall_and] at hblank
  obtain ⟨⟨hbefore, hgap⟩, hafter⟩ := hblank
  have hblanks {cs : List Char} (hcs : ∀ c ∈ cs, Text.isBlank c = true) : Text.Sealed .bare cs :=
    Text.sealed_of_isPlain fun c hc ↦ Text.isPlain_of_isBlank (hcs c hc)
  have hname := Text.sealed_of_isPlain hhead.isPlain_name
  exact ((((hblanks hbefore).append hname).append (hblanks hgap)).append hhead.sealed_raw).append
    (hblanks hafter)

/-- Trimmed, the code begins with the name, and what follows from a blank on is the rest. -/
private theorem exists_trim_eq (h : head.SpelledBy code) (hhead : head.IsPrintable) :
    ∃ rest, Text.trim code = head.name.toList ++ rest ∧
      (∀ c ∈ rest.head?, Text.isBlank c = true) ∧ Text.trim rest = head.raw.toList := by
  obtain ⟨before, gap, after, hblank, hgap, rfl⟩ := h
  simp only [List.mem_append, or_imp, forall_and] at hblank
  obtain ⟨⟨hbefore, hgapBlank⟩, hafter⟩ := hblank
  obtain ⟨first, letters, hname⟩ := List.exists_cons_of_ne_nil
    (mt String.toList_eq_nil_iff.mp hhead.name_ne)
  have hstart (cs : List Char) : Text.trimStart (before ++ (head.name.toList ++ cs)) =
      head.name.toList ++ cs := by
    rw [Text.trimStart_append hbefore, Text.trimStart_eq_self]
    intro c hc
    rw [hname, List.cons_append, List.head?_cons, Option.mem_some_iff] at hc
    exact hhead.isBlank_name c (by rw [hname, hc]; exact List.mem_cons_self)
  rw [List.append_assoc, List.append_assoc, List.append_assoc, Text.trim, hstart]
  by_cases hraw : head.raw = ""
  · refine ⟨[], ?_, nofun, by rw [hraw]; rfl⟩
    have hblanks : ∀ c ∈ gap ++ after, Text.isBlank c = true := by
      simpa only [List.mem_append, or_imp, forall_and] using ⟨hgapBlank, hafter⟩
    rw [hraw, String.toList_empty, List.nil_append, Text.trimEnd_append hblanks, List.append_nil,
      Text.trimEnd_eq_self]
    exact fun c hc ↦ hhead.isBlank_name c (List.mem_of_getLast? hc)
  · have hrawChars : head.raw.toList ≠ [] := mt String.toList_eq_nil_iff.mp hraw
    refine ⟨gap ++ head.raw.toList, ?_, ?_, ?_⟩
    · rw [← List.append_assoc, ← List.append_assoc, Text.trimEnd_append hafter,
        Text.trimEnd_eq_self, List.append_assoc]
      rw [List.getLast?_append_of_ne_nil _ hrawChars]
      exact Text.isBlank_getLast?_of_trim hhead.trim_raw
    · cases gap with
      | nil => exact absurd (hgap rfl) hraw
      | cons c rest => exact fun d hd ↦ Option.some.inj hd ▸ hgapBlank c List.mem_cons_self
    · rw [Text.trim_append hgapBlank, hhead.trim_raw]

/-- The opening that code writes is the one that is read from it. -/
theorem ofCode_eq (h : head.SpelledBy code) (hhead : head.IsPrintable) :
    TagHead.ofCode (String.ofList code) = head := by
  obtain ⟨rest, htrim, hrest, hraw⟩ := h.exists_trim_eq hhead
  obtain ⟨hword, hafter⟩ := Text.firstWord_of_append hhead.isBlank_name hrest
  rw [TagHead.ofCode, String.toList_ofList, htrim, hword, hafter, hraw, String.ofList_toList,
    String.ofList_toList]

end SpelledBy

end TagHead

/-! ### Nodes as they are written -/

namespace Node

mutual

/-- A node without the places of its parts. -/
def unplaced : Node → Node
  | .text s => .text s
  | .output e _ => .output e ⟨.origin, .origin⟩
  | .tag head kind children _ => .tag head kind (unplacedAll children) ⟨.origin, .origin⟩

/-- Some nodes without the places of their parts. -/
def unplacedAll : List Node → List Node
  | [] => []
  | node :: rest => node.unplaced :: unplacedAll rest

end

section

variable {node first : Node} {nodes rest children : List Node} {head : TagHead} {kind : TagKind}
  {expression : Expression} {span : Span}

theorem unplacedAll_eq_nil (h : unplacedAll nodes = []) : nodes = [] := by
  cases nodes with
  | nil => rfl
  | cons node rest => cases h

theorem exists_of_unplacedAll_eq_cons (h : unplacedAll nodes = first :: rest) :
    ∃ node others, nodes = node :: others ∧ node.unplaced = first ∧ unplacedAll others = rest := by
  cases nodes with
  | nil => cases h
  | cons node others =>
    cases h
    exact ⟨node, others, rfl, rfl, rfl⟩

theorem exists_of_unplaced_eq_output (h : node.unplaced = .output expression span) :
    ∃ own, node = .output expression own := by
  cases node with
  | text s => cases h
  | output e own =>
    cases h
    exact ⟨own, rfl⟩
  | tag head kind children own => cases h

theorem exists_of_unplaced_eq_tag (h : node.unplaced = .tag head kind children span) :
    ∃ inner own, node = .tag head kind inner own ∧ unplacedAll inner = children := by
  cases node with
  | text s => cases h
  | output e own => cases h
  | tag name kind inner own =>
    cases h
    exact ⟨inner, own, rfl, rfl⟩

end

/-- Whether some nodes begin with literal text. -/
def beginWithText : List Node → Bool
  | .text _ :: _ => true
  | _ => false

/-- How nodes are written where `kindOf` tells which names are tags: literal text that opens no
marker, even together with what follows it; any code of the expression of an output; the opening of a
tag; and for a block its children and the end. -/
inductive Printed (kindOf : String → Option TagKind) : List Node → List Char → Prop where
  | nil : Printed kindOf [] []
  | text {s : String} {nodes : List Node} {out : List Char} (hne : s ≠ "")
      (hopens : ∀ m : Marker, ¬ m.opener <:+: s.toList) (hlast : s.toList.getLast? ≠ some '\x7b')
      (hnext : beginWithText nodes = false) (rest : Printed kindOf nodes out) :
      Printed kindOf (.text s :: nodes) (s.toList ++ out)
  | output {code : String} {e : Expression} (span : Span) {nodes : List Node} {out : List Char}
      (hparse : Expression.parse code = .ok e) (rest : Printed kindOf nodes out) :
      Printed kindOf (.output e span :: nodes) (Marker.output.around code.toList ++ out)
  | standalone {head : TagHead} {code : List Char} (span : Span) {nodes : List Node}
      {out : List Char} (hhead : head.IsPrintable) (hcode : head.SpelledBy code)
      (hkind : kindOf head.name = some .standalone) (rest : Printed kindOf nodes out) :
      Printed kindOf (.tag head .standalone [] span :: nodes) (Marker.tag.around code ++ out)
  | block {head : TagHead} {code ending : List Char} (span : Span) {children nodes : List Node}
      {inner out : List Char} (hhead : head.IsPrintable) (hcode : head.SpelledBy code)
      (hending : head.ending.SpelledBy ending) (hkind : kindOf head.name = some .block)
      (hfree : kindOf head.ending.name = none) (body : Printed kindOf children inner)
      (rest : Printed kindOf nodes out) :
      Printed kindOf (.tag head .block children span :: nodes)
        (Marker.tag.around code ++ inner ++ Marker.tag.around ending ++ out)

variable {kindOf : String → Option TagKind}

/-! ### The pieces of what is written -/

/-- Whether a text is empty or begins with the brace of a marker. -/
private def StartsMarker (cs : List Char) : Prop := ∀ c ∈ cs.head?, c = '\x7b'

private theorem startsMarker_around (m : Marker) (code more : List Char) :
    StartsMarker (m.around code ++ more) := by
  intro c hc
  cases m <;> exact (Option.some.inj hc).symm

/-- What is written for nodes that do not begin with text begins with a marker. -/
private theorem Printed.startsMarker {nodes : List Node} {out : List Char}
    (h : Printed kindOf nodes out) (htext : beginWithText nodes = false) {more : List Char}
    (hmore : StartsMarker more) : StartsMarker (out ++ more) := by
  cases h with
  | nil => exact hmore
  | text => cases htext
  | output span hparse rest =>
    rw [List.append_assoc]
    exact startsMarker_around _ _ _
  | standalone span hhead hcode hkind rest =>
    rw [List.append_assoc]
    exact startsMarker_around _ _ _
  | block span hhead hcode hending hkind hfree body rest =>
    rw [List.append_assoc, List.append_assoc, List.append_assoc]
    exact startsMarker_around _ _ _

/-- What the segments have to do with nodes and what is written for them. -/
private structure Realizes (kindOf : String → Option TagKind) (segments : List Segment)
    (nodes : List Node) (out : List Char) : Prop where
  cut : Segment.Cut segments
  begin : beginWithText nodes = false → Segment.beginWithText segments = false
  /-- No mark lies across the end, whatever marker follows. -/
  split_append : ∀ more, StartsMarker more →
    Piece.split (out ++ more) = Segment.piecesOf segments ++ Piece.split more
  derives : ∀ p, ∃ found, Derives kindOf (Segment.tokensOf p segments) found ∧
    unplacedAll found = unplacedAll nodes

theorem mark?_brace {c : Char} (h : c ≠ '\x7b') : Piece.mark? c '\x7b' = none := by
  unfold Piece.mark?
  split <;> simp_all

private theorem realizes_nil : Realizes kindOf [] [] [] where
  cut := trivial
  begin _ := rfl
  split_append _ _ := rfl
  derives _ := ⟨[], .nil, rfl⟩

private theorem Realizes.text {s : String} {nodes : List Node} {out : List Char}
    {segments : List Segment} (hne : s ≠ "") (hopens : ∀ m : Marker, ¬ m.opener <:+: s.toList)
    (hlast : s.toList.getLast? ≠ some '\x7b') (hnext : beginWithText nodes = false)
    (hout : Printed kindOf nodes out) (h : Realizes kindOf segments nodes out) :
    Realizes kindOf (.text (Piece.split s.toList) :: segments) (.text s :: nodes)
      (s.toList ++ out) where
  cut := by
    refine ⟨⟨?_, ?_⟩, h.begin hnext, h.cut⟩
    · intro hempty
      have hchars := Piece.charsOf_split s.toList
      rw [hempty] at hchars
      exact hne (String.toList_eq_nil_iff.mp hchars.symm)
    · exact fun m hm ↦ hopens m (Piece.opener_isInfix_of_mem_split hm)
  begin htext := by cases htext
  split_append more hmore := by
    have hborder : ∀ c ∈ s.toList.getLast?, ∀ d ∈ (out ++ more).head?, Piece.mark? c d = none := by
      intro c hc d hd
      obtain rfl := hout.startsMarker hnext hmore d hd
      exact mark?_brace fun hbrace ↦ hlast (hbrace ▸ hc)
    rw [List.append_assoc, Piece.split_append hborder, h.split_append more hmore,
      Segment.piecesOf_cons, List.append_assoc]
    rfl
  derives p := by
    obtain ⟨found, hfound, hsame⟩ := h.derives (p.advance (Segment.text _).chars)
    refine ⟨.text s :: found, ?_, by rw [unplacedAll, unplacedAll, hsame]⟩
    rw [Segment.tokensOf, Segment.tokens, Piece.charsOf_split, String.ofList_toList]
    exact .text hfound

/-- The tokens of code in its marker. -/
private theorem exists_tokens_code (p : Point) (isOutput : Bool) (code : List Char) :
    ∃ first middle last, (Segment.code isOutput (Piece.split code)).tokens p =
      [⟨Token.opening isOutput, first⟩, ⟨.code (String.ofList code), middle⟩,
        ⟨Token.closing isOutput, last⟩] := by
  rw [Segment.tokens, Piece.charsOf_split]
  exact ⟨_, _, _, rfl⟩

/-- A node that is a single marker, whose tokens make it up wherever they stand. -/
private theorem Realizes.marker (isOutput : Bool) {code : List Char}
    (hcode : Text.Sealed .bare code) {node : Node} {nodes : List Node} {out : List Char}
    {segments : List Segment}
    (hnode : ∀ first middle last tokens found, Derives kindOf tokens found →
      ∃ read : Node, read.unplaced = node.unplaced ∧
        Derives kindOf (⟨Token.opening isOutput, first⟩ :: ⟨.code (String.ofList code), middle⟩ ::
          ⟨Token.closing isOutput, last⟩ :: tokens) (read :: found))
    (h : Realizes kindOf segments nodes out) :
    Realizes kindOf (.code isOutput (Piece.split code) :: segments) (node :: nodes)
      ((Token.markerOf isOutput).around code ++ out) where
  cut := ⟨hcode.wellFormed isOutput, h.cut⟩
  begin _ := rfl
  split_append more hmore := by
    rw [List.append_assoc, hcode.split_around, h.split_append more hmore, Segment.piecesOf_cons,
      List.append_assoc]
  derives p := by
    obtain ⟨found, hfound, hsame⟩ := h.derives (p.advance (Segment.code isOutput _).chars)
    obtain ⟨first, middle, last, htokens⟩ := exists_tokens_code p isOutput code
    obtain ⟨read, hread, hderives⟩ := hnode first middle last _ found hfound
    refine ⟨read :: found, ?_, by rw [unplacedAll, unplacedAll, hread, hsame]⟩
    rw [Segment.tokensOf, htokens]
    exact hderives

private theorem Realizes.block {head : TagHead} {code ending : List Char} {span : Span}
    {children nodes : List Node} {inner out : List Char} {body segments : List Segment}
    (hhead : head.IsPrintable) (hcode : head.SpelledBy code)
    (hending : head.ending.SpelledBy ending) (hkind : kindOf head.name = some .block)
    (hfree : kindOf head.ending.name = none) (hbody : Realizes kindOf body children inner)
    (h : Realizes kindOf segments nodes out) :
    Realizes kindOf (.code false (Piece.split code) ::
        (body ++ .code false (Piece.split ending) :: segments))
      (.tag head .block children span :: nodes)
      (Marker.tag.around code ++ inner ++ Marker.tag.around ending ++ out) where
  cut := by
    have hopen := (hcode.sealed hhead).wellFormed false
    have hclose := (hending.sealed hhead.ending).wellFormed false
    exact ⟨hopen, hbody.cut.append ⟨hclose, h.cut⟩ rfl⟩
  begin _ := rfl
  split_append more hmore := by
    have hopen : ∀ cs, Piece.split (Marker.tag.around code ++ cs) =
        (Segment.code false (Piece.split code)).pieces ++ Piece.split cs :=
      (hcode.sealed hhead).split_around false
    have hclose : ∀ cs, Piece.split (Marker.tag.around ending ++ cs) =
        (Segment.code false (Piece.split ending)).pieces ++ Piece.split cs :=
      (hending.sealed hhead.ending).split_around false
    have hmarker : StartsMarker (Marker.tag.around ending ++ (out ++ more)) :=
      startsMarker_around _ _ _
    -- The end of the block is the marker that follows its body.
    simp only [List.append_assoc, Segment.piecesOf_cons, Segment.piecesOf_append]
    rw [hopen, hbody.split_append _ hmarker, hclose, h.split_append more hmore]
  derives p := by
    rw [Segment.tokensOf, Segment.tokensOf_append, Segment.tokensOf]
    obtain ⟨first, middle, last, htokens⟩ := exists_tokens_code p false code
    generalize p.advance (Segment.code false (Piece.split code)).chars = q
    obtain ⟨inside, hinside, hsameInside⟩ := hbody.derives q
    generalize q.advance (Piece.charsOf (Segment.piecesOf body)) = q'
    obtain ⟨first', middle', last', htokens'⟩ := exists_tokens_code q' false ending
    obtain ⟨found, hfound, hsame⟩ :=
      h.derives (q'.advance (Segment.code false (Piece.split ending)).chars)
    have hread := hcode.ofCode_eq hhead
    have hreadEnding := hending.ofCode_eq hhead.ending
    refine ⟨.tag head .block inside ⟨first.start, last'.stop⟩ :: found, ?_, ?_⟩
    · rw [htokens, htokens', ← hread]
      refine .block first middle last first' middle' last' ?_ ?_ hinside ?_ ?_ hfound
      · rw [hread]
        exact hhead.name_ne
      · rw [hread]
        exact hkind
      · rw [hread, hreadEnding]
        rfl
      · rw [hreadEnding]
        exact hfree
    · rw [unplacedAll, unplacedAll, unplaced, unplaced, hsameInside, hsame]

/-- What is written for a list of nodes is cut into segments whose tokens make up the nodes. -/
private theorem Printed.exists_realizes {nodes : List Node} {out : List Char}
    (h : Printed kindOf nodes out) : ∃ segments, Realizes kindOf segments nodes out := by
  induction h with
  | nil => exact ⟨[], realizes_nil⟩
  | text hne hopens hlast hnext rest ih =>
    obtain ⟨segments, hsegments⟩ := ih
    exact ⟨_, .text hne hopens hlast hnext rest hsegments⟩
  | @output code e span nodes out hparse rest ih =>
    obtain ⟨segments, hsegments⟩ := ih
    have hcode := Expression.sealed_of_parse hparse
    rw [← String.ofList_toList (s := code)] at hparse
    refine ⟨_, .marker true hcode ?_ hsegments⟩
    intro first middle last tokens found hfound
    exact ⟨.output e ⟨first.start, last.stop⟩, rfl, .output first middle last hparse hfound⟩
  | @standalone head code span nodes out hhead hcode hkind rest ih =>
    obtain ⟨segments, hsegments⟩ := ih
    have hread := hcode.ofCode_eq hhead
    refine ⟨_, .marker false (hcode.sealed hhead) ?_ hsegments⟩
    intro first middle last tokens found hfound
    refine ⟨.tag head .standalone [] ⟨first.start, last.stop⟩, rfl, ?_⟩
    rw [← hread] at hkind ⊢
    exact .standalone first middle last (by rw [hread]; exact hhead.name_ne) hkind hfound
  | block span hhead hcode hending hkind hfree body rest ihbody ih =>
    obtain ⟨inside, hinside⟩ := ihbody
    obtain ⟨segments, hsegments⟩ := ih
    exact ⟨_, .block hhead hcode hending hkind hfree hinside hsegments⟩

/-- What is written for nodes is parsed, and gives the nodes back up to their places. -/
theorem parse_of_printed (r : Registry) {nodes : List Node} {source : String}
    (h : Printed r.tagKind? nodes source.toList) :
    ∃ found, parse r.tagKind? source = .ok found ∧ unplacedAll found = unplacedAll nodes := by
  obtain ⟨segments, hsegments⟩ := h.exists_realizes
  have hsplit := hsegments.split_append [] nofun
  rw [List.append_nil, Piece.split, List.append_nil] at hsplit
  obtain ⟨found, hfound, hsame⟩ := hsegments.derives .origin
  refine ⟨found, ?_, hsame⟩
  rw [parse, Segment.ofText_eq hsegments.cut hsplit]
  exact ofTokens_of_derives hfound

/-- A block with an output, a tag and literal text in it, and marks in the literals of all three. -/
private def quotedMarks : List Node :=
  [.text "\x7d é",
    .tag ⟨"filter", "replace(\"%\x7d\", '\x7b\x7b')"⟩ .block
      [.output ⟨.named "x", [⟨"default", [.literal (.string "\x7d\x7d")]⟩]⟩ ⟨.origin, .origin⟩,
        .tag ⟨"set", "y = \"#\x7d\""⟩ .standalone [] ⟨.origin, .origin⟩,
        .text "\n%\x7d"]
      ⟨.origin, .origin⟩]

private def quotedMarksText : String :=
  "\x7d é\x7b% filter replace(\"%\x7d\", '\x7b\x7b') %\x7d\x7b\x7b x|default(\"\x7d\x7d\") " ++
    "\x7d\x7d\x7b%set  y = \"#\x7d\" %\x7d\n%\x7d\x7b% endfilter %\x7d"

private theorem printed_quotedMarks :
    Printed (Registry.ofOptions 0 ⟨"/"⟩ .default).tagKind? quotedMarks quotedMarksText.toList := by
  have hout : quotedMarksText.toList = "\x7d é".toList ++
      (Marker.tag.around " filter replace(\"%\x7d\", '\x7b\x7b') ".toList ++
        (Marker.output.around " x|default(\"\x7d\x7d\") ".toList ++
          (Marker.tag.around "set  y = \"#\x7d\" ".toList ++ ("\n%\x7d".toList ++ []))) ++
        Marker.tag.around " endfilter ".toList ++ []) := by
    decide +kernel
  have hliteral (s : String) (hs : s = "\x7d é" ∨ s = "\n%\x7d") :
      s ≠ "" ∧ (∀ m : Marker, ¬ m.opener <:+: s.toList) ∧ s.toList.getLast? ≠ some '\x7b' := by
    rcases hs with rfl | rfl <;> refine ⟨by decide, fun m ↦ ?_, by decide⟩ <;> cases m <;> decide
  rw [hout]
  obtain ⟨hne, hopens, hlast⟩ := hliteral _ (.inl rfl)
  refine .text hne hopens hlast rfl (.block _ (by decide) ?_ ?_ (by cbv) (by cbv) ?_ .nil)
  · exact ⟨[' '], [' '], [' '], List.all_eq_true.mp (by decide), by decide, by decide⟩
  · exact ⟨[' '], [' '], [], List.all_eq_true.mp (by decide), by decide, by decide⟩
  · refine .output _ (by cbv) (.standalone _ (by decide) ?_ (by cbv) ?_)
    · exact ⟨[], [' ', ' '], [' '], List.all_eq_true.mp (by decide), by decide, by decide⟩
    · obtain ⟨hne, hopens, hlast⟩ := hliteral _ (.inr rfl)
      exact .text hne hopens hlast rfl .nil

/-- Marks in literals and blanks around openings do not hinder the parser. -/
theorem exists_parse_quotedMarks :
    Printed (Registry.ofOptions 0 ⟨"/"⟩ .default).tagKind? quotedMarks quotedMarksText.toList ∧
      ∃ found, parse (Registry.ofOptions 0 ⟨"/"⟩ .default).tagKind? quotedMarksText = .ok found ∧
        unplacedAll found = unplacedAll quotedMarks :=
  ⟨printed_quotedMarks, parse_of_printed _ printed_quotedMarks⟩

end Node

end Stencil
