import Mathlib.Data.Set.Card
import Mathlib.Logic.Relation
import Stencil.Proofs.Expansion

/-!
# What includes what

The inclusions in the texts of templates are the edges of a graph. A file can stand in it under
several spellings of its path; these have the same text and so the same edges.
-/

namespace Stencil

open Relation

/-- The nodes of the text behind an identity. -/
def FileSystem.nodesOf (fs : FileSystem) (r : Registry) (i : Identity) :
    Except Error (List Node) :=
  (fs.textOf i).bind (Node.parse r.tagKind?)

/-- The template of the first identity includes the one of the second identity, a file that an
identifier in its text leads to. -/
def Includes (r : Registry) (fs : FileSystem) (i j : Identity) : Prop :=
  ∃ nodes identifier path, fs.nodesOf r i = .ok nodes ∧ identifier ∈ Node.loadsOf r nodes ∧
    fs.resolve identifier r.roots = .ok path ∧ j = .file path

/-- From an identity on, inclusions lead to a file that they lead back to, in whatever spelling of
its path. -/
def Cyclic (r : Registry) (fs : FileSystem) (entry : Identity) : Prop :=
  ∃ i j, ReflTransGen (Includes r fs) entry i ∧ TransGen (Includes r fs) i j ∧ i.same j = true

/-- Every chain of inclusions from an identity on comes to an end. -/
def Grounded (r : Registry) (fs : FileSystem) (i : Identity) : Prop :=
  Acc (fun j i ↦ Includes r fs i j) i

/-- The files that inclusions lead to from an identity on, by the parts of their paths. -/
def reachedFiles (r : Registry) (fs : FileSystem) (entry : Identity) : Set (List Path.Part) :=
  {parts | ∃ path : Path, TransGen (Includes r fs) entry (.file path) ∧ path.parts = parts}

theorem Node.mem_literalsOf_of_mem_loadsOf {r : Registry} {nodes : List Node}
    {identifier : String} (h : identifier ∈ loadsOf r nodes) :
    identifier ∈ literalsOf nodes := by
  obtain ⟨head, hhead, hliteral⟩ := exists_head_of_mem_loadsOf nodes h
  exact List.mem_filterMap.mpr ⟨head, hhead, hliteral⟩

theorem FileSystem.nodesOf_eq_ok {fs : FileSystem} {r : Registry} {i : Identity}
    {nodes : List Node} : fs.nodesOf r i = .ok nodes ↔
      ∃ text, fs.textOf i = .ok text ∧ Node.parse r.tagKind? text = .ok nodes :=
  Computation.bind_eq_ok

section Graph

variable {r : Registry} {fs : FileSystem} {entry i j k : Identity}

theorem Includes.holds (h : Includes r fs i j) : fs.Holds i := by
  obtain ⟨nodes, _, _, hnodes, -⟩ := h
  obtain ⟨text, htext, -⟩ := FileSystem.nodesOf_eq_ok.mp hnodes
  exact FileSystem.holds_of_textOf htext

theorem Includes.holds_target (h : Includes r fs i j) : fs.Holds j := by
  obtain ⟨_, _, _, -, -, hpath, rfl⟩ := h
  exact FileSystem.entry_of_resolve hpath

/-- Inclusions do not depend on how the path of the including file is spelled. -/
theorem Includes.of_same (hij : i.same j = true) (hj : fs.Holds j) (h : Includes r fs i k) :
    Includes r fs j k := by
  have htext := FileSystem.textOf_of_same hij h.holds hj
  obtain ⟨nodes, identifier, path, hnodes, hrest⟩ := h
  refine ⟨nodes, identifier, path, ?_, hrest⟩
  rwa [FileSystem.nodesOf, ← htext]

theorem holds_of_transGen (h : TransGen (Includes r fs) i j) : fs.Holds j := by
  cases h with
  | single hij => exact hij.holds_target
  | tail _ hkj => exact hkj.holds_target

/-- Inclusions lead to the same files whatever spelling of a path they start from. -/
theorem transGen_of_same (hij : i.same j = true) (hj : fs.Holds j)
    (h : TransGen (Includes r fs) i k) : TransGen (Includes r fs) j k := by
  obtain ⟨first, hfirst, hrest⟩ := TransGen.head'_iff.mp h
  exact .head' (hfirst.of_same hij hj) hrest

namespace Grounded

theorem of_same (hij : i.same j = true) (hi : fs.Holds i) (h : Grounded r fs i) :
    Grounded r fs j :=
  .intro j fun _ hk ↦ h.inv (hk.of_same (Identity.same_comm i j ▸ hij) hi)

/-- A template is grounded if all the files that it includes are. -/
theorem of_forall {nodes : List Node} (hnodes : fs.nodesOf r i = .ok nodes)
    (h : ∀ identifier ∈ Node.loadsOf r nodes, ∀ path,
      fs.resolve identifier r.roots = .ok path → Grounded r fs (.file path)) :
    Grounded r fs i := by
  refine .intro i ?_
  rintro _ ⟨nodes', identifier, path, hnodes', hmem, hpath, rfl⟩
  cases hnodes.symm.trans hnodes'
  exact h identifier hmem path hpath

theorem of_reflTransGen (hij : ReflTransGen (Includes r fs) i j) (h : Grounded r fs i) :
    Grounded r fs j := by
  induction hij with
  | refl => exact h
  | tail _ hstep ih => exact ih.inv hstep

/-- Inclusions do not lead from a grounded template back to itself. -/
theorem not_same_of_transGen (h : Grounded r fs i) :
    ∀ j, TransGen (Includes r fs) i j → i.same j = false := by
  -- Going round once more from the other spelling is a shorter chain below the first template.
  induction h.transGen with
  | intro i _ ih =>
    intro j hij
    by_contra hsame
    rw [Bool.not_eq_false] at hsame
    have hround := transGen_of_same hsame (holds_of_transGen hij) hij
    have hnot := ih j (transGen_swap.mpr hij) (h.of_reflTransGen hij.to_reflTransGen) j hround
    rw [Identity.same_self] at hnot
    cases hnot

/-- No inclusions go round below a grounded template. -/
theorem not_cyclic (h : Grounded r fs entry) : ¬Cyclic r fs entry := by
  rintro ⟨i, j, hi, hij, hsame⟩
  have hnot := (h.of_reflTransGen hi).not_same_of_transGen j hij
  rw [hsame] at hnot
  cases hnot

end Grounded

/-- What a template includes is named in its own text or in a file. -/
private theorem mem_names_of_includes {identifier : String} {nodes : List Node}
    (hi : ReflTransGen (Includes r fs) entry i) (hnodes : fs.nodesOf r i = .ok nodes)
    (hmem : identifier ∈ Node.loadsOf r nodes) :
    fs.nodesOf r entry = .ok nodes ∨ identifier ∈ fs.literals r := by
  cases hi with
  | refl => exact .inl hnodes
  | tail _ hstep =>
    obtain ⟨_, _, path, -, -, -, rfl⟩ := hstep
    obtain ⟨text, htext, hparse⟩ := FileSystem.nodesOf_eq_ok.mp hnodes
    have hread : fs.readText path = .ok text := Computation.mapError_eq_ok.mp htext
    exact .inr (FileSystem.mem_literals hread hparse
      (Node.mem_literalsOf_of_mem_loadsOf hmem))

/-- Inclusions lead to finitely many files, because these are named in finitely many texts. -/
theorem finite_reachedFiles (r : Registry) (fs : FileSystem) (entry : Identity) :
    (reachedFiles r fs entry).Finite := by
  let own : List String := ((fs.nodesOf r entry).toOption.map (Node.loadsOf r)).getD []
  let partsOf (identifier : String) : List Path.Part :=
    ((fs.resolve identifier r.roots).toOption.map Path.parts).getD []
  refine ((own ++ fs.literals r).map partsOf).finite_toSet.subset ?_
  rintro _ ⟨path, hpath, rfl⟩
  obtain ⟨i, hi, hlast⟩ := TransGen.tail'_iff.mp hpath
  obtain ⟨nodes, identifier, _, hnodes, hmem, hresolve, hfile⟩ := hlast
  cases hfile
  refine List.mem_map.mpr ⟨identifier, List.mem_append.mpr ?_, ?_⟩
  · refine (mem_names_of_includes hi hnodes hmem).imp_left fun hentry ↦ ?_
    simpa [own, hentry, Except.toOption] using hmem
  · simp [partsOf, hresolve, Except.toOption]

end Graph

end Stencil
