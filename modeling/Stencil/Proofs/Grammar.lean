import Mathlib.Data.Set.Subsingleton
import Stencil.Node.Parse
import Stencil.Registry

/-!
# The grammar of nodes

Which tokens make up which nodes, stated without a stack: a block is the tokens of its opening, those
of the nodes in it, and those of its end. The walk with its open blocks accepts exactly these tokens
and answers exactly these nodes, so that tokens make up at most one list of nodes.
-/

namespace Stencil.Node

/-- How tokens make up nodes, where `kindOf` tells which names are tags. Tag code without a word has
no name, and is neither a tag nor an end. -/
inductive Derives (kindOf : String → Option TagKind) : List Placed → List Node → Prop where
  | nil : Derives kindOf [] []
  | text {s : String} {span : Span} {tokens : List Placed} {nodes : List Node}
      (rest : Derives kindOf tokens nodes) :
      Derives kindOf (⟨.text s, span⟩ :: tokens) (.text s :: nodes)
  | output {code : String} {e : Expression} (first middle last : Span) {tokens : List Placed}
      {nodes : List Node} (hparse : Expression.parse code = .ok e)
      (rest : Derives kindOf tokens nodes) :
      Derives kindOf
        (⟨.outputOpen, first⟩ :: ⟨.code code, middle⟩ :: ⟨.outputClose, last⟩ :: tokens)
        (.output e ⟨first.start, last.stop⟩ :: nodes)
  | standalone {code : String} (first middle last : Span) {tokens : List Placed}
      {nodes : List Node} (hname : (TagHead.ofCode code).name ≠ "")
      (hkind : kindOf (TagHead.ofCode code).name = some .standalone)
      (rest : Derives kindOf tokens nodes) :
      Derives kindOf
        (⟨.tagOpen, first⟩ :: ⟨.code code, middle⟩ :: ⟨.tagClose, last⟩ :: tokens)
        (.tag (TagHead.ofCode code) .standalone [] ⟨first.start, last.stop⟩ :: nodes)
  | block {code ending : String} (first middle last first' middle' last' : Span)
      {inner tokens : List Placed} {children nodes : List Node}
      (hname : (TagHead.ofCode code).name ≠ "")
      (hkind : kindOf (TagHead.ofCode code).name = some .block)
      (body : Derives kindOf inner children)
      (hend : (TagHead.ofCode ending).name = "end" ++ (TagHead.ofCode code).name)
      (hfree : kindOf (TagHead.ofCode ending).name = none)
      (rest : Derives kindOf tokens nodes) :
      Derives kindOf
        (⟨.tagOpen, first⟩ :: ⟨.code code, middle⟩ :: ⟨.tagClose, last⟩ :: (inner ++
          ⟨.tagOpen, first'⟩ :: ⟨.code ending, middle'⟩ :: ⟨.tagClose, last'⟩ :: tokens))
        (.tag (TagHead.ofCode code) .block children ⟨first.start, last'.stop⟩ :: nodes)

variable {kindOf : String → Option TagKind}

/-- Tokens that make up nodes, one after the other. -/
theorem Derives.append {first second : List Placed} {nodes more : List Node}
    (h : Derives kindOf first nodes) (h' : Derives kindOf second more) :
    Derives kindOf (first ++ second) (nodes ++ more) := by
  induction h with
  | nil => exact h'
  | text rest ih => exact .text ih
  | output a b c hparse rest ih => exact .output a b c hparse ih
  | standalone a b c hname hkind rest ih => exact .standalone a b c hname hkind ih
  | block a b c a' b' c' hname hkind body hend hfree rest _ ih =>
    have hblock := Derives.block a b c a' b' c' hname hkind body hend hfree ih
    simpa using hblock

/-! ### One marker -/

theorem walk_output {progress next : Progress} {code : String} {first middle last : Span}
    (h : takeOutput progress code middle.start (first.through last) = .ok next) (index : Nat)
    (rest : List Placed) :
    walk kindOf progress index
        (⟨.outputOpen, first⟩ :: ⟨.code code, middle⟩ :: ⟨.outputClose, last⟩ :: rest) =
      walk kindOf next (index + 3) rest := by
  rw [walk_outputMarker, h, Except.bind]

theorem walk_tag {progress next : Progress} {code : String} {first last : Span}
    (h : takeTag kindOf progress code (first.through last) = .ok next) (index : Nat) (middle : Span)
    (rest : List Placed) :
    walk kindOf progress index
        (⟨.tagOpen, first⟩ :: ⟨.code code, middle⟩ :: ⟨.tagClose, last⟩ :: rest) =
      walk kindOf next (index + 3) rest := by
  rw [walk_tagMarker, h, Except.bind]

/-- An output marker is taken in exactly if its code is an expression. -/
theorem takeOutput_eq_ok {progress next : Progress} {code : String} {codeStart : Point}
    {span : Span} :
    takeOutput progress code codeStart span = .ok next ↔ ∃ e, Expression.parse code = .ok e ∧
      next = { progress with nodes := .output e span :: progress.nodes } := by
  unfold takeOutput
  cases hparse : Expression.parse code with
  | ok e => simp [eq_comm]
  | error fault => simp

/-- The block that a name ends. -/
theorem closedBy?_eq_some {name closed : String} :
    closedBy? name = some closed ↔ name = "end" ++ closed := by
  rw [← String.toList_inj, String.toList_append]
  unfold closedBy?
  constructor
  · intro h
    split at h
    · next rest hname =>
      obtain rfl := Option.some.inj h
      simp [hname]
    · cases h
  · intro h
    rw [h]
    exact congrArg some String.ofList_toList

private theorem takeEnd_eq_ok {progress next : Progress} {name : String} {span : Span} :
    takeEnd progress name span = .ok next ↔ ∃ block outer, progress.blocks = block :: outer ∧
      name = "end" ++ block.head.name ∧
      next = ⟨.tag block.head .block progress.nodes.reverse (block.span.through span) ::
        block.before, outer⟩ := by
  obtain ⟨nodes, blocks⟩ := progress
  unfold takeEnd
  constructor
  · intro h
    cases hclosed : closedBy? name with
    | none => simp [hclosed] at h
    | some closed =>
      cases blocks with
      | nil => simp [hclosed] at h
      | cons block outer =>
        by_cases hname : block.head.name = closed
        · simp only [hclosed, if_pos hname, Except.ok.injEq] at h
          exact ⟨block, outer, rfl, hname ▸ closedBy?_eq_some.mp hclosed, h.symm⟩
        · simp [hclosed, hname] at h
  · rintro ⟨block, outer, rfl, hname, rfl⟩
    simp [closedBy?_eq_some.mpr hname]

/-- What a tag marker that is taken in does: it leaves a node, or opens a block, or ends the
innermost one. -/
theorem takeTag_eq_ok {progress next : Progress} {code : String} {span : Span} :
    takeTag kindOf progress code span = .ok next ↔
      (TagHead.ofCode code).name ≠ "" ∧
      ((kindOf (TagHead.ofCode code).name = some .standalone ∧
          next = { progress with
            nodes := .tag (TagHead.ofCode code) .standalone [] span :: progress.nodes }) ∨
        (kindOf (TagHead.ofCode code).name = some .block ∧
          next = ⟨[], ⟨TagHead.ofCode code, span, progress.nodes⟩ :: progress.blocks⟩) ∨
        (kindOf (TagHead.ofCode code).name = none ∧ ∃ block outer,
          progress.blocks = block :: outer ∧
          (TagHead.ofCode code).name = "end" ++ block.head.name ∧
          next = ⟨.tag block.head .block progress.nodes.reverse (block.span.through span) ::
            block.before, outer⟩)) := by
  unfold takeTag
  dsimp only
  by_cases hname : (TagHead.ofCode code).name = ""
  · simp [hname]
  · rw [if_neg hname]
    match hkind : kindOf (TagHead.ofCode code).name with
    | some .standalone => simp [hname, eq_comm]
    | some .block => simp [hname, eq_comm]
    | none => simp [hname, takeEnd_eq_ok]

/-! ### From the grammar to the walk -/

/-- Over tokens that make up nodes the walk goes on with these nodes, whatever blocks are open. -/
theorem walk_of_derives {tokens : List Placed} {nodes : List Node}
    (h : Derives kindOf tokens nodes) (before : List Node) (blocks : List OpenBlock) (index : Nat)
    (more : List Placed) :
    walk kindOf ⟨before, blocks⟩ index (tokens ++ more) =
      walk kindOf ⟨nodes.reverse ++ before, blocks⟩ (index + tokens.length) more := by
  induction h generalizing before blocks index more with
  | nil => rfl
  | text rest ih =>
    rw [List.cons_append, walk_text, ih, List.reverse_cons, List.append_assoc, List.length_cons]
    congr 1
    omega
  | output first middle last hparse rest ih =>
    rw [List.cons_append, List.cons_append, List.cons_append,
      walk_output (takeOutput_eq_ok.mpr ⟨_, hparse, rfl⟩), ih, List.reverse_cons, List.append_assoc]
    congr 1
    simp only [List.length_cons]
    omega
  | standalone first middle last hname hkind rest ih =>
    rw [List.cons_append, List.cons_append, List.cons_append,
      walk_tag (takeTag_eq_ok.mpr ⟨hname, .inl ⟨hkind, rfl⟩⟩), ih, List.reverse_cons,
      List.append_assoc]
    congr 1
    simp only [List.length_cons]
    omega
  | @block code ending first middle last first' middle' last' inner tokens children nodes hname
      hkind body hend hfree rest ihbody ih =>
    have hending : (TagHead.ofCode ending).name ≠ "" := by
      rw [hend]
      simp
    let block : OpenBlock := ⟨TagHead.ofCode code, first.through last, before⟩
    have hclose : takeTag kindOf ⟨children.reverse, block :: blocks⟩ ending
        (first'.through last') = .ok ⟨.tag block.head .block children.reverse.reverse
          (block.span.through (first'.through last')) :: before, blocks⟩ :=
      takeTag_eq_ok.mpr ⟨hending, .inr (.inr ⟨hfree, block, blocks, rfl, hend, rfl⟩)⟩
    -- The body is read with the block open, and the end tag closes it.
    rw [List.cons_append, List.cons_append, List.cons_append,
      walk_tag (takeTag_eq_ok.mpr ⟨hname, .inr (.inl ⟨hkind, rfl⟩)⟩), List.append_assoc, ihbody,
      List.cons_append, List.cons_append, List.cons_append, List.append_nil,
      walk_tag hclose, ih,
      List.reverse_reverse, List.reverse_cons, List.append_assoc]
    apply congrArg (walk kindOf _ · more)
    simp only [List.length_cons, List.length_append]
    omega

/-- Tokens that make up nodes are accepted. -/
theorem ofTokens_of_derives {tokens : List Placed} {nodes : List Node}
    (h : Derives kindOf tokens nodes) : ofTokens kindOf tokens = .ok nodes := by
  have hwalk := walk_of_derives h [] [] 0 []
  rw [List.append_nil, List.append_nil] at hwalk
  rw [ofTokens, hwalk, walk_nil, List.reverse_reverse]

/-! ### From the walk to the grammar -/

/-- How tokens complete what a walk has read: the nodes at the innermost level and the open blocks
become a list of nodes. -/
def Completes (kindOf : String → Option TagKind) (before : List Node) (blocks : List OpenBlock)
    (tokens : List Placed) (result : List Node) : Prop :=
  match blocks with
  | [] => ∃ nodes, Derives kindOf tokens nodes ∧ result = before.reverse ++ nodes
  | block :: outer => ∃ inner nodes first ending middle last rest,
    tokens = inner ++ ⟨.tagOpen, first⟩ :: ⟨.code ending, middle⟩ :: ⟨.tagClose, last⟩ :: rest ∧
    Derives kindOf inner nodes ∧
    (TagHead.ofCode ending).name = "end" ++ block.head.name ∧
    kindOf (TagHead.ofCode ending).name = none ∧
    Completes kindOf (.tag block.head .block (before.reverse ++ nodes)
      ⟨block.span.start, last.stop⟩ :: block.before) outer rest result

/-- Nodes that have been read come first. -/
private theorem Completes.append {first tokens : List Placed} {nodes before result : List Node}
    {blocks : List OpenBlock} (h : Derives kindOf first nodes)
    (hrest : Completes kindOf (nodes.reverse ++ before) blocks tokens result) :
    Completes kindOf before blocks (first ++ tokens) result := by
  cases blocks with
  | nil =>
    obtain ⟨more, hmore, rfl⟩ := hrest
    exact ⟨nodes ++ more, h.append hmore, by simp⟩
  | cons block outer =>
    obtain ⟨inner, more, a, ending, b, c, rest, rfl, hinner, hend, hfree, hrest⟩ := hrest
    refine ⟨first ++ inner, nodes ++ more, a, ending, b, c, rest, by simp, h.append hinner, hend,
      hfree, ?_⟩
    simpa using hrest

/-- How a walk that accepts goes on: it is at the end with no block open, or it takes in the text or
the marker that comes next. -/
private theorem cases_of_walk {progress : Progress} {index : Nat} {tokens : List Placed}
    {result : List Node} (h : walk kindOf progress index tokens = .ok result) :
    (tokens = [] ∧ progress.blocks = [] ∧ result = progress.nodes.reverse) ∨
    (∃ s span rest, tokens = ⟨.text s, span⟩ :: rest ∧
      walk kindOf { progress with nodes := .text s :: progress.nodes } (index + 1) rest =
        .ok result) ∨
    (∃ first code middle last rest next,
      tokens = ⟨.outputOpen, first⟩ :: ⟨.code code, middle⟩ :: ⟨.outputClose, last⟩ :: rest ∧
      takeOutput progress code middle.start (first.through last) = .ok next ∧
      walk kindOf next (index + 3) rest = .ok result) ∨
    (∃ first code middle last rest next,
      tokens = ⟨.tagOpen, first⟩ :: ⟨.code code, middle⟩ :: ⟨.tagClose, last⟩ :: rest ∧
      takeTag kindOf progress code (first.through last) = .ok next ∧
      walk kindOf next (index + 3) rest = .ok result) := by
  unfold walk at h
  split at h
  · split at h
    · next hblocks => exact .inl ⟨rfl, hblocks, (Except.ok.inj h).symm⟩
    · cases h
  · exact .inr (.inl ⟨_, _, _, rfl, h⟩)
  · split at h
    · next htake => exact .inr (.inr (.inl ⟨_, _, _, _, _, _, rfl, htake, h⟩))
    · cases h
  · split at h
    · next htake => exact .inr (.inr (.inr ⟨_, _, _, _, _, _, rfl, htake, h⟩))
    · cases h
  · cases h

/-- What the walk accepts completes what it had read. -/
theorem completes_of_walk {progress : Progress} {index : Nat} {tokens : List Placed}
    {result : List Node} (h : walk kindOf progress index tokens = .ok result) :
    Completes kindOf progress.nodes progress.blocks tokens result := by
  induction hlength : tokens.length using Nat.strongRecOn generalizing progress index tokens with
  | ind n ih =>
    have hrest {next : Progress} {index : Nat} {rest : List Placed}
        (hwalk : walk kindOf next index rest = .ok result) (hshorter : rest.length < n) :
        Completes kindOf next.nodes next.blocks rest result := ih _ hshorter hwalk rfl
    obtain ⟨nodes, blocks⟩ := progress
    rcases cases_of_walk h with ⟨rfl, hblocks, rfl⟩ | ⟨s, span, rest, rfl, hwalk⟩ |
      ⟨first, code, middle, last, rest, next, rfl, htake, hwalk⟩ |
      ⟨first, code, middle, last, rest, next, rfl, htake, hwalk⟩
    · obtain rfl : blocks = [] := hblocks
      exact ⟨[], .nil, (List.append_nil _).symm⟩
    · exact Completes.append (.text .nil) (hrest hwalk (by simp [← hlength]))
    · obtain ⟨e, hparse, rfl⟩ := takeOutput_eq_ok.mp htake
      have hnodes := hrest hwalk (by simp only [← hlength, List.length_cons]; omega)
      exact Completes.append (.output first middle last hparse .nil) hnodes
    · have hnext := hrest hwalk (by simp only [← hlength, List.length_cons]; omega)
      obtain ⟨hname, ⟨hkind, rfl⟩ | ⟨hkind, rfl⟩ | ⟨hkind, block, outer, hblocks, hend, rfl⟩⟩ :=
        takeTag_eq_ok.mp htake
      · exact Completes.append (.standalone first middle last hname hkind .nil) hnext
      · -- The end that completes the body of the block also completes the block.
        obtain ⟨inner, children, first', ending, middle', last', tokens, rfl, hinner, hending,
          hfree, hmore⟩ := hnext
        have hblock := Derives.block first middle last first' middle' last' hname hkind hinner
          hending hfree .nil
        simpa using Completes.append hblock hmore
      · obtain rfl : blocks = block :: outer := hblocks
        refine ⟨[], [], first, code, middle, last, rest, rfl, .nil, hend, hkind, ?_⟩
        rw [List.append_nil]
        exact hnext

/-- The walk answers nodes exactly if the tokens make them up, and tokens make up one list of nodes at
most. -/
theorem ofTokens_eq_ok_iff_derives (r : Registry) (tokens : List Placed) :
    (∀ nodes, ofTokens r.tagKind? tokens = .ok nodes ↔ Derives r.tagKind? tokens nodes) ∧
      {nodes | Derives r.tagKind? tokens nodes}.Subsingleton := by
  have hok (nodes : List Node) :
      ofTokens r.tagKind? tokens = .ok nodes ↔ Derives r.tagKind? tokens nodes := by
    constructor
    · intro h
      obtain ⟨found, hfound, rfl⟩ := completes_of_walk h
      exact hfound
    · exact ofTokens_of_derives
  refine ⟨hok, ?_⟩
  intro nodes h others hothers
  exact Except.ok.inj (((hok nodes).mpr h).symm.trans ((hok others).mpr hothers))

end Stencil.Node
