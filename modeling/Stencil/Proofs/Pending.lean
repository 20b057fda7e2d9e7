import Stencil.IncludeStack
import Stencil.Proofs.SamePath
import Stencil.Proofs.TagCount
import Stencil.Registry

/-!
# Inclusions that can still be entered

The files of a file system name finitely many templates. Every file that is entered leaves fewer of
these names that lead to a file which is not being compiled yet, so chains of inclusions are short.
-/

namespace Stencil

/-! ### The stack as a set -/

/-- Identities that are the same are the same as the same others. -/
theorem Identity.same_of_same {i j : Identity} (h : i.same j = true) (k : Identity) :
    i.same k = j.same k := by
  apply Bool.eq_iff_iff.mpr
  constructor
  · exact same_trans (same_comm i j ▸ h)
  · exact same_trans h

namespace IncludeStack

variable {s t : IncludeStack} {identity : Identity}

theorem enter_eq_ok : s.enter identity = .ok t ↔
    s.contains identity = false ∧ t = ⟨identity :: s.identities⟩ := by
  unfold enter
  cases s.contains identity with
  | true => simp
  | false => simp [eq_comm]

/-- Only what is on a stack cannot be entered. -/
theorem enter_eq_error {e : Error} (h : s.enter identity = .error e) :
    s.contains identity = true ∧ e = .circularInclude identity.text := by
  unfold enter at h
  split at h
  · next hcontains =>
    cases h
    exact ⟨hcontains, rfl⟩
  · cases h

theorem contains_cons (i j : Identity) (is : List Identity) :
    contains ⟨i :: is⟩ j = (i.same j || contains ⟨is⟩ j) := rfl

/-- A stack contains all or none of the identities that are the same. -/
theorem contains_of_same {i j : Identity} (h : i.same j = true) : s.contains i = s.contains j := by
  simp only [contains, Identity.same_comm _ i, Identity.same_comm _ j, Identity.same_of_same h]

end IncludeStack

/-! ### What files name -/

/-- The string literals that are the only argument of a tag in the text of an entry. -/
def Entry.literals (kindOf : String → Option TagKind) : Entry → List String
  | .directory => []
  | .file content =>
    match String.fromUTF8? content with
    | some text =>
      match Node.parse kindOf text with
      | .ok nodes => Node.literalsOf nodes
      | .error _ => []
    | none => []

private theorem utf8ByteSize_of_fromUTF8? {content : ByteArray} {text : String}
    (h : String.fromUTF8? content = some text) : text.utf8ByteSize = content.size := by
  unfold String.fromUTF8? at h
  split at h
  · cases h
    rfl
  · cases h

theorem Entry.length_literals_le (kindOf : String → Option TagKind) (entry : Entry) :
    (entry.literals kindOf).length ≤ entry.size := by
  cases entry with
  | directory => exact Nat.le_refl _
  | file content =>
    unfold literals size
    dsimp only
    split
    · next text htext =>
      split
      · next nodes hnodes =>
        rw [← utf8ByteSize_of_fromUTF8? htext]
        exact Node.length_literalsOf_le hnodes
      · exact Nat.zero_le _
    · exact Nat.zero_le _

namespace FileSystem

variable (fs : FileSystem) (r : Registry)

/-- The string literals that are the only argument of a tag in some file. -/
def literals : List String := fs.entries.flatMap fun entry ↦ entry.2.literals r.tagKind?

/-- All files together name no more templates than they have bytes. -/
theorem length_literals_le : (fs.literals r).length ≤ fs.size := by
  unfold literals size
  induction fs.entries with
  | nil => exact Nat.le_refl _
  | cons entry rest ih =>
    rw [List.flatMap_cons, List.length_append, List.foldr_cons]
    exact Nat.add_le_add (entry.2.length_literals_le _) ih

variable {fs r}

/-- What a file names is among what all files name. -/
theorem mem_literals {path : Path} {text identifier : String} {nodes : List Node}
    (htext : fs.readText path = .ok text) (hnodes : Node.parse r.tagKind? text = .ok nodes)
    (hmem : identifier ∈ Node.literalsOf nodes) : identifier ∈ fs.literals r := by
  obtain ⟨content, hentry⟩ := entry_of_readText htext
  rw [readText_of_entry hentry] at htext
  have hfound := find?_target hentry
  unfold find? at hfound
  split at hfound
  · cases hfound
  · obtain ⟨before, after, hentries, -⟩ := List.lookup_eq_some_iff.mp hfound
    have hin : (fs.target path, Entry.file content) ∈ fs.entries := by
      rw [hentries]
      exact List.mem_append_right _ List.mem_cons_self
    refine List.mem_flatMap.mpr ⟨_, hin, ?_⟩
    unfold Entry.literals
    split at htext
    · next found hutf8 =>
      cases htext
      simp only [hutf8, hnodes, hmem]
    · cases htext

variable (fs r)

/-- Whether a name leads to a file that is not being compiled. -/
def isPending (stack : IncludeStack) (identifier : String) : Bool :=
  match fs.resolve identifier r.roots with
  | .ok path => !stack.contains (.file path)
  | .error _ => false

/-- How many of the names in files lead to files that are not being compiled. -/
def pending (stack : IncludeStack) : Nat := (fs.literals r).countP (fs.isPending r stack)

theorem pending_le_size (stack : IncludeStack) : fs.pending r stack ≤ fs.size :=
  Nat.le_trans List.countP_le_length (fs.length_literals_le r)

variable {fs r}

private theorem isPending_of_enter {stack inner : IncludeStack} {identity : Identity}
    (henter : stack.enter identity = .ok inner) {identifier : String}
    (h : fs.isPending r inner identifier = true) : fs.isPending r stack identifier = true := by
  obtain ⟨-, rfl⟩ := IncludeStack.enter_eq_ok.mp henter
  unfold isPending at h ⊢
  split at h
  · next path hpath =>
    rw [IncludeStack.contains_cons, Bool.not_or, Bool.and_eq_true] at h
    exact h.2
  · cases h

private theorem countP_lt_of_mem {α : Type} {p q : α → Bool} {l : List α} {a : α}
    (hpq : ∀ x ∈ l, p x = true → q x = true) (ha : a ∈ l) (hp : p a = false) (hq : q a = true) :
    l.countP p < l.countP q := by
  obtain ⟨before, after, rfl⟩ := List.append_of_mem ha
  have hbefore : before.countP p ≤ before.countP q :=
    List.countP_mono_left fun x hx ↦ hpq x (List.mem_append_left _ hx)
  have hafter : after.countP p ≤ after.countP q :=
    List.countP_mono_left fun x hx ↦ hpq x (List.mem_append_right _ (List.mem_cons_of_mem _ hx))
  simp only [List.countP_append, List.countP_cons, hp, hq, if_true, Bool.false_eq_true, if_false]
  omega

/-- Entering the file of a name makes fewer names pending. -/
theorem pending_lt_of_enter {stack inner : IncludeStack} {identifier : String} {path : Path}
    (hmem : identifier ∈ fs.literals r) (hpath : fs.resolve identifier r.roots = .ok path)
    (henter : stack.enter (.file path) = .ok inner) :
    fs.pending r inner < fs.pending r stack := by
  have hstack := IncludeStack.enter_eq_ok.mp henter
  apply countP_lt_of_mem (fun _ _ h ↦ isPending_of_enter henter h) hmem
  · simp only [isPending, hpath, hstack.2, IncludeStack.contains_cons, Identity.same_self,
      Bool.true_or, Bool.not_true]
  · simp only [isPending, hpath, hstack.1, Bool.not_false]

variable (fs r)

/-- Whether a depth leaves room for every chain of inclusions that begins with a name: it does if it
exceeds all chains, or if it exceeds those that are still possible and the name is one in a file. -/
def Suffices (stack : IncludeStack) (identifier : String) (depth : Nat) : Prop :=
  fs.size + 2 ≤ depth ∨ identifier ∈ fs.literals r ∧ fs.pending r stack < depth

variable {fs r}

theorem not_suffices_zero {stack : IncludeStack} {identifier : String} :
    ¬fs.Suffices r stack identifier 0 := by
  unfold Suffices
  omega

/-- What suffices for a name suffices, less one, for the names in its file. -/
theorem Suffices.of_enter {stack inner : IncludeStack} {identifier other text : String}
    {depth : Nat} {path : Path} {nodes : List Node}
    (h : fs.Suffices r stack identifier (depth + 1))
    (hpath : fs.resolve identifier r.roots = .ok path)
    (henter : stack.enter (.file path) = .ok inner) (htext : fs.readText path = .ok text)
    (hnodes : Node.parse r.tagKind? text = .ok nodes) (hmem : other ∈ Node.literalsOf nodes) :
    fs.Suffices r inner other depth := by
  refine .inr ⟨mem_literals htext hnodes hmem, ?_⟩
  rcases h with hsize | ⟨hliteral, hpending⟩
  · have hle := fs.pending_le_size r inner
    omega
  · have hlt := pending_lt_of_enter hliteral hpath henter
    omega

end FileSystem

end Stencil
