import Stencil.Node.Parse
import Stencil.Proofs.Computation

/-!
# How many tags a text holds

Every tag of a template takes an opening mark of its own, so a text has no more tags than bytes.
-/

namespace Stencil

namespace Node

/-- The string literals that are the only argument of a tag in some nodes. -/
def literalsOf (nodes : List Node) : List String := (headsOf nodes).filterMap TagHead.literal?

/-- The number of tags in some nodes. -/
def tagCount (nodes : List Node) : Nat := (headsOf nodes).length

@[simp] theorem tagCount_nil : tagCount [] = 0 := rfl

@[simp] theorem tagCount_cons (node : Node) (nodes : List Node) :
    tagCount (node :: nodes) = node.heads.length + tagCount nodes := by
  simp [tagCount, headsOf]

theorem tagCount_append (first second : List Node) :
    tagCount (first ++ second) = tagCount first + tagCount second := by
  simp [tagCount, headsOf_eq_flatMap]

@[simp] theorem tagCount_reverse (nodes : List Node) :
    tagCount nodes.reverse = tagCount nodes := by
  induction nodes with
  | nil => rfl
  | cons node rest ih =>
    rw [List.reverse_cons, tagCount_append, ih, tagCount_cons, tagCount_cons]
    simp only [tagCount_nil]
    omega

@[simp] theorem length_heads_tag (head : TagHead) (kind : TagKind) (children : List Node)
    (span : Span) : (Node.tag head kind children span).heads.length = tagCount children + 1 := by
  simp [heads, tagCount]

/-- The number of tags that were taken in so far. -/
def Progress.tagCount (progress : Progress) : Nat :=
  Node.tagCount progress.nodes + Node.tagCount (progress.blocks.flatMap fun block ↦ block.before) +
    progress.blocks.length

private theorem tagCount_takeOutput {progress next : Progress} {code : String} {start : Point}
    {span : Span} (h : takeOutput progress code start span = .ok next) :
    next.tagCount = progress.tagCount := by
  unfold takeOutput at h
  split at h
  · cases h
    simp [Progress.tagCount, heads]
  · cases h

private theorem tagCount_takeEnd {progress next : Progress} {name : String} {span : Span}
    (h : takeEnd progress name span = .ok next) : next.tagCount = progress.tagCount := by
  unfold takeEnd at h
  split at h
  · cases h
  · cases h
  · next block outer _ hblocks =>
    split at h
    · cases h
      simp only [Progress.tagCount, tagCount_cons, length_heads_tag, tagCount_reverse, hblocks,
        List.flatMap_cons, tagCount_append, List.length_cons]
      omega
    · cases h

private theorem tagCount_takeTag {kindOf : String → Option TagKind} {progress next : Progress}
    {code : String} {span : Span} (h : takeTag kindOf progress code span = .ok next) :
    next.tagCount ≤ progress.tagCount + 1 := by
  unfold takeTag at h
  dsimp only at h
  split at h
  · cases h
  · split at h
    · cases h
      simp only [Progress.tagCount, tagCount_cons, length_heads_tag, tagCount_nil]
      omega
    · cases h
      simp only [Progress.tagCount, List.flatMap_cons, tagCount_append, List.length_cons,
        tagCount_nil]
      omega
    · rw [tagCount_takeEnd h]
      exact Nat.le_succ _

private def opensTag (p : Placed) : Bool := p.token = .tagOpen

private theorem tagCount_walk {kindOf : String → Option TagKind} (progress : Progress)
    (index : Nat) (tokens : List Placed) {nodes : List Node}
    (h : walk kindOf progress index tokens = .ok nodes) :
    tagCount nodes ≤ progress.tagCount + tokens.countP opensTag := by
  fun_induction walk kindOf progress index tokens with
  | case1 progress index hblocks =>
    cases h
    rw [tagCount_reverse]
    unfold Progress.tagCount
    omega
  | case2 => cases h
  | case3 progress index s span rest ih =>
    have hrest := ih h
    simp only [Progress.tagCount, tagCount_cons, heads, List.length_nil] at hrest ⊢
    simp only [List.countP_cons]
    omega
  | case4 progress index first code middle last rest next hnext ih =>
    have hrest := ih h
    rw [tagCount_takeOutput hnext] at hrest
    simp only [List.countP_cons]
    omega
  | case5 => cases h
  | case6 progress index first code middle last rest next hnext ih =>
    have hrest := ih h
    have hstep := tagCount_takeTag hnext
    have hopens : opensTag ⟨.tagOpen, first⟩ = true := rfl
    simp only [List.countP_cons, hopens, if_true]
    omega
  | case7 => cases h
  | case8 => cases h

end Node

namespace Token

open Node (opensTag)

private theorem countP_textRun (start : Point) (run : List Char) :
    (textRun start run).countP opensTag = 0 := by
  cases run <;> rfl

private theorem countP_codeRun (isOutput : Bool) (start here : Point) (run : List Char) :
    (codeRun isOutput start here run).countP opensTag = 0 := by
  cases isOutput <;> rfl

private theorem countP_walk (mode : Mode) (here : Point) (pieces : List Piece) :
    ∀ tokens, walk mode here pieces = .ok tokens → tokens.countP opensTag ≤ pieces.length := by
  fun_induction walk mode here pieces with
  | case1 start run =>
    rintro _ ⟨⟩
    rw [countP_textRun]
    exact Nat.zero_le _
  | case2 => exact fun _ h ↦ nomatch h
  | case3 => exact fun _ h ↦ nomatch h
  | case4 start run here rest after ih =>
    intro tokens h
    obtain ⟨later, hlater, rfl⟩ := Computation.map_eq_ok.mp h
    have hrest := ih later hlater
    rw [List.countP_append, countP_textRun, List.length_cons]
    omega
  | case5 start run here rest marker _ isOutput after ih =>
    intro tokens h
    obtain ⟨later, hlater, rfl⟩ := Computation.map_eq_ok.mp h
    have hrest := ih later hlater
    rw [List.countP_append, countP_textRun, List.countP_cons, List.length_cons]
    split <;> omega
  | case6 start run here piece rest after _ _ ih =>
    intro tokens h
    have hrest := ih tokens h
    rw [List.length_cons]
    omega
  | case7 isOutput opened start run quoting here piece rest after _ ih =>
    intro tokens h
    obtain ⟨later, hlater, rfl⟩ := Computation.map_eq_ok.mp h
    have hrest := ih later hlater
    rw [List.countP_append, countP_codeRun, List.length_cons]
    omega
  | case8 isOutput opened start run quoting here piece rest after _ ih =>
    intro tokens h
    have hrest := ih tokens h
    rw [List.length_cons]
    omega
  | case9 opened here piece rest after ih =>
    intro tokens h
    have hrest := ih tokens h
    rw [List.length_cons]
    omega

end Token

private theorem length_split (cs : List Char) : (Piece.split cs).length ≤ cs.length := by
  fun_induction Piece.split cs with
  | case1 => exact Nat.le_refl _
  | case2 => exact Nat.le_refl _
  | case3 c d rest piece h ih =>
    simp only [List.length_cons]
    omega
  | case4 c d rest h ih =>
    simp only [List.length_cons] at ih ⊢
    omega

private theorem length_le_utf8ByteSize (cs : List Char) :
    cs.length ≤ (String.ofList cs).utf8ByteSize := by
  induction cs with
  | nil => exact Nat.zero_le _
  | cons c rest ih =>
    rw [String.ofList_cons, String.utf8ByteSize_append, String.utf8ByteSize_singleton,
      List.length_cons]
    have hc := Char.utf8Size_pos c
    omega

/-- A text has no more tags than bytes. -/
theorem Node.tagCount_le_of_parse {kindOf : String → Option TagKind} {source : String}
    {nodes : List Node} (h : Node.parse kindOf source = .ok nodes) :
    tagCount nodes ≤ source.utf8ByteSize := by
  obtain ⟨tokens, htokens, hnodes⟩ := Computation.bind_eq_ok.mp h
  have hwalk := tagCount_walk ⟨[], []⟩ 0 tokens hnodes
  have hscan := Token.countP_walk _ _ _ tokens htokens
  have hpieces := length_split source.toList
  have hbytes := length_le_utf8ByteSize source.toList
  rw [String.ofList_toList] at hbytes
  simp only [Progress.tagCount, tagCount_nil, List.flatMap_nil, List.length_nil] at hwalk
  omega

/-- A text has no more tags with a literal argument than bytes. -/
theorem Node.length_literalsOf_le {kindOf : String → Option TagKind} {source : String}
    {nodes : List Node} (h : Node.parse kindOf source = .ok nodes) :
    (literalsOf nodes).length ≤ source.utf8ByteSize :=
  Nat.le_trans (List.length_filterMap_le _ _) (tagCount_le_of_parse h)

end Stencil
