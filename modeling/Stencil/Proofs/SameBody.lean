import Stencil.Proofs.Compile
import Stencil.Registry

/-!
# The same body from different compilations

Compiling a template once more gives the same instructions, but its inclusions stand for other
compiled templates, whose paths may be spelled in another way. Rendering does not show this, and a
pure raw tag does not see it.
-/

namespace Stencil

namespace Instruction

mutual

/-- Two instructions are the same but for which compilations their inclusions stand for. -/
def Same : Instruction → Instruction → Prop
  | .text s, .text t => s = t
  | .output e, .output f => e = f
  | .simple tag arguments a, .simple other others b =>
    tag = other ∧ arguments = others ∧ SameOptional a b
  | .fragment f, .fragment g => f = g
  | .included i _ a, .included j _ b => i.same j = true ∧ SameAll a b
  | _, _ => False

/-- Two bodies have the same instructions one by one. -/
def SameAll : List Instruction → List Instruction → Prop
  | [], [] => True
  | i :: a, j :: b => Same i j ∧ SameAll a b
  | _, _ => False

/-- Both bodies are missing, or they are the same. -/
def SameOptional : Option (List Instruction) → Option (List Instruction) → Prop
  | none, none => True
  | some a, some b => SameAll a b
  | _, _ => False

end

theorem sameAll_iff {a b : Body} : SameAll a b ↔ List.Forall₂ Same a b := by
  induction a generalizing b with
  | nil => cases b <;> simp [SameAll]
  | cons i a ih => cases b <;> simp [SameAll, ih]

theorem sameOptional_of_rel {a b : Option Body} (h : Option.Rel (List.Forall₂ Same) a b) :
    SameOptional a b := by
  cases h with
  | none => exact trivial
  | some hab => exact sameAll_iff.mpr hab

mutual

private theorem run_eq_of_same : (i j : Instruction) → Same i j → run i = run j
  | .text _, j, h => by
    cases j <;> simp_all [Same, run]
  | .output _, j, h => by
    cases j <;> simp_all [Same, run]
  | .simple tag arguments a, j, h => by
    cases j with
    | simple other others b =>
      obtain ⟨rfl, rfl, hbody⟩ := h
      rw [run, run, runOptional_eq_of_same a b hbody]
    | _ => exact h.elim
  | .fragment _, j, h => by
    cases j <;> simp_all [Same, run]
  | .included _ _ a, j, h => by
    cases j with
    | included _ _ b =>
      rw [run, run, runAll_eq_of_same a b h.2]
    | _ => exact h.elim

/-- Bodies that are the same render the same. -/
theorem runAll_eq_of_same : (a b : List Instruction) → SameAll a b → runAll a = runAll b
  | [], b, h => by
    cases b with
    | nil => rfl
    | cons => exact h.elim
  | i :: a, b, h => by
    cases b with
    | nil => exact h.elim
    | cons j b => rw [runAll, runAll, run_eq_of_same i j h.1, runAll_eq_of_same a b h.2]

private theorem runOptional_eq_of_same : (a b : Option (List Instruction)) → SameOptional a b →
    runOptional a = runOptional b
  | none, b, h => by
    cases b with
    | none => rfl
    | some => exact h.elim
  | some a, b, h => by
    cases b with
    | none => exact h.elim
    | some b => exact runAll_eq_of_same a b h

end

end Instruction

/-! ### Pure raw tags -/

namespace RawTag

/-- A raw tag that does not see which compilations its body includes. -/
def IsPure (tag : RawTag) : Prop :=
  ∀ (input : RawTagInput) (body : Option Body), Instruction.SameOptional input.body body →
    tag.compile { input with body } = tag.compile input

private theorem runAll_bodyOrEmpty {input : RawTagInput} {body : Option Body}
    (h : Instruction.SameOptional input.body body) :
    Instruction.runAll { input with body }.bodyOrEmpty =
      Instruction.runAll input.bodyOrEmpty := by
  obtain ⟨head, own, span, findFilter, findExtension⟩ := input
  cases own with
  | none =>
    cases body with
    | none => rfl
    | some other => exact h.elim
  | some own =>
    cases body with
    | none => exact h.elim
    | some other => exact (Instruction.runAll_eq_of_same own other h).symm

theorem isPure_set : set.IsPure := fun _ _ _ ↦ rfl

theorem isPure_autoescape : autoescape.IsPure := by
  intro input body h
  simp only [autoescape, Body.write, runAll_bodyOrEmpty h]
  rfl

theorem isPure_spaceless : spaceless.IsPure := by
  intro input body h
  simp only [spaceless, Body.capture, runAll_bodyOrEmpty h]
  rfl

theorem isPure_filter : filter.IsPure := by
  intro input body h
  simp only [filter, Body.capture, runAll_bodyOrEmpty h]
  rfl

/-- The built-in tags are pure. -/
theorem isPure_of_mem_builtins {entry : String × RawTag} (h : entry ∈ builtins) :
    entry.2.IsPure := by
  simp only [builtins, List.mem_cons, List.not_mem_nil, or_false] at h
  rcases h with rfl | rfl | rfl | rfl
  · exact isPure_set
  · exact isPure_autoescape
  · exact isPure_spaceless
  · exact isPure_filter

end RawTag

namespace Fields

variable {α : Type}

theorem mem_of_find? {name : String} {fields : Fields α} {value : α}
    (h : find? name fields = some value) : (name, value) ∈ fields := by
  induction fields with
  | nil => cases h
  | cons entry rest ih =>
    obtain ⟨key, old⟩ := entry
    rw [find?] at h
    split at h
    · next hkey =>
      cases h
      rw [hkey]
      exact List.mem_cons_self
    · exact List.mem_cons_of_mem _ (ih h)

theorem mem_insertAll {fields : Fields α} {entries : List (String × α)} {entry : String × α}
    (h : entry ∈ insertAll fields entries) : entry ∈ fields ∨ entry ∈ entries := by
  induction entries generalizing fields with
  | nil => exact .inl h
  | cons first rest ih =>
    rcases ih h with hfields | hrest
    · rcases mem_insert hfields with rfl | hold
      · exact .inr List.mem_cons_self
      · exact .inl hold
    · exact .inr (List.mem_cons_of_mem _ hrest)

theorem mem_ofList {entries : List (String × α)} {entry : String × α}
    (h : entry ∈ ofList entries) : entry ∈ entries := by
  rcases mem_insertAll h with hnone | hmem
  · cases hnone
  · exact hmem

end Fields

/-- A set-up whose raw tags are pure. -/
def Options.IsPure (o : Options) : Prop := ∀ entry ∈ o.rawTags, entry.2.IsPure

/-- A registry whose raw tags are pure. -/
def Registry.IsPure (r : Registry) : Prop := ∀ entry ∈ r.rawTags, entry.2.IsPure

namespace Registry

variable {r : Registry}

/-- Compiling under a pure registry carries sameness from included templates to bodies. -/
theorem IsPure.respects (h : r.IsPure) {T : Template → Template → Prop}
    (hT : ∀ t u, T t u → t.identity.same u.identity = true ∧ Instruction.SameAll t.body u.body) :
    Respects r Instruction.Same T where
  text _ := rfl
  output _ := rfl
  simple _ _ _ _ hbody := ⟨rfl, rfl, Instruction.sameOptional_of_rel hbody⟩
  raw := by
    intro name tag htag head span a b hbody
    have hpure : tag.IsPure := h _ (Fields.mem_of_find? (tag?_eq_raw htag).2)
    have hcompile := hpure ⟨head, a, span, r.filter?, r.extension?⟩ b
      (Instruction.sameOptional_of_rel hbody)
    unfold RawTag.instruction
    dsimp only at hcompile
    rw [hcompile]
    cases tag.compile ⟨head, a, span, r.filter?, r.extension?⟩ <;> exact rfl
  included hTemplate := hT _ _ hTemplate

end Registry

end Stencil
