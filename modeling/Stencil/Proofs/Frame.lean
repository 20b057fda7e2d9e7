import Mathlib
import Stencil.Proofs.Judgment
import Stencil.Proofs.Sources

/-!
# What rendering may change

Apart from the output, rendering changes the scope only, and there the names that `set` tags bind. The
flag of escaping is switched for a body and put back after it. All this is so also where rendering
fails.
-/

namespace Stencil

/-! ### Steps that keep names -/

/-- A step leaves the flag of escaping as it was, and some names with the values they had. -/
def Render.Keeps {α : Type} (kept : String → Prop) (x : Render α) : Prop :=
  ∀ s : RenderState, (x s).2.autoescape = s.autoescape ∧
    ∀ name, kept name → Fields.find? name (x s).2.scope = Fields.find? name s.scope

namespace Render.Keeps

variable {α β : Type} {kept : String → Prop} {x : Render α}

/-- A step that leaves the flag of escaping and the scope alone keeps all names. -/
theorem of_scope_eq (h : ∀ s : RenderState, (x s).2.autoescape = s.autoescape ∧
    (x s).2.scope = s.scope) : x.Keeps kept := by
  intro s
  refine ⟨(h s).1, fun name _ ↦ ?_⟩
  rw [(h s).2]

theorem ofScope (f : Scope → Except Error α) :
    Keeps kept (do ofExcept (f (← get).scope)) := by
  refine of_scope_eq fun s ↦ ?_
  simp only [Computation.bind_apply, Computation.get_apply, Computation.ofExcept_apply, and_self]

/-- Other names keep their values when one is bound. -/
theorem binding {name : String} (value : Value) (h : ¬kept name) :
    Keeps kept (Render.bind name value) := by
  intro s
  refine ⟨rfl, fun other hother ↦ ?_⟩
  have hne : name ≠ other := by
    rintro rfl
    exact h hother
  exact Fields.find?_insert_of_ne hne value s.scope

/-- The second step finds the names as the first one left them, if it is reached. -/
theorem bind {f : α → Render β} (hx : x.Keeps kept) (hf : ∀ a, (f a).Keeps kept) :
    Keeps kept (x >>= f) := by
  intro s
  have hfirst := hx s
  rw [Computation.bind_apply]
  rcases hrun : x s with ⟨e | a, middle⟩ <;> rw [hrun] at hfirst
  · exact hfirst
  · have hsecond := hf a middle
    refine ⟨hsecond.1.trans hfirst.1, fun name hname ↦ ?_⟩
    exact (hsecond.2 name hname).trans (hfirst.2 name hname)

theorem captured {x : Render Unit} (hx : x.Keeps kept) : Keeps kept (Render.captured x) := by
  intro s
  rw [captured_apply]
  exact hx { s with output := "" }

/-- A switch of escaping does not outlast the body that it is for. -/
theorem withAutoescape (flag : Bool) {x : Render Unit} (hx : x.Keeps kept) :
    Keeps kept (Render.withAutoescape flag x) := by
  intro s
  rw [withAutoescape_apply]
  exact ⟨rfl, (hx { s with autoescape := flag }).2⟩

end Render.Keeps

/-- With the built-in raw tags only, rendering keeps the names that no use binds. -/
def Render.keeping (r : Registry) (kept : String → Prop) :
    Render.Judgment r fun use ↦ ∀ name e, use = .binding name e → ¬kept name where
  Holds := Keeps kept
  pure _ := .of_scope_eq fun _ ↦ ⟨rfl, rfl⟩
  bind := .bind
  write _ := .of_scope_eq fun _ ↦ ⟨rfl, rfl⟩
  autoescape := .of_scope_eq fun _ ↦ ⟨rfl, rfl⟩
  evaluate {_ _ _ b} _ _ _ := .ofScope b.evaluate
  binding value huse := .binding value (huse _ _ rfl)
  chain value _ _ := .ofScope fun scope ↦ FilterChain.apply scope _ value
  captured := .captured
  withAutoescape := .withAutoescape

/-! ### Bodies -/

/-- What a body may change. A body that was compiled with the built-in raw tags only, from any nodes
and with any files behind its inclusions, uses what is used in the nodes and the inclusions. In every
state it leaves the flag of escaping as it was, and every name with its value that is not bound by one
of these uses, whether it succeeds or fails. -/
theorem Body.write_keeps {r : Registry} {fs : FileSystem} {files : FileSystem → Prop}
    (hr : r.HasBuiltinTags) (hfs : files fs) {loading : Loading}
    (hcache : loading.cache.Sourced r files) {depth : Nat} {nodes : List Node} {body : Body}
    (h : (Node.compileAll r (Load.file r fs depth) nodes loading).1 = .ok body) :
    (∃ uses, body.CompiledFrom files r nodes uses) ∧
    ∀ uses, body.CompiledFrom files r nodes uses → ∀ s : RenderState,
      (Body.write body s).2.autoescape = s.autoescape ∧
      ∀ name, (∀ e, .binding name e ∉ uses) →
        Fields.find? name (Body.write body s).2.scope = Fields.find? name s.scope := by
  refine ⟨Load.compiledFrom_of_compileAll hfs hcache h, fun uses hcompiled ↦ ?_⟩
  refine (Render.keeping r fun name ↦ ∀ e, .binding name e ∉ uses).holds_of_body hr hcompiled ?_
  rintro _ huse name e rfl hkept
  exact hkept e huse

/-- A block in which a name is bound and a file is included, where a filter can fail. -/
def Node.interruptedBlock : Node :=
  .tag ⟨"autoescape", "false"⟩ .block
    [.tag ⟨"set", "v = x"⟩ .standalone [] ⟨.origin, .origin⟩,
      .tag ⟨"include", "\"a\""⟩ .standalone [] ⟨.origin, .origin⟩] ⟨.origin, .origin⟩

/-- What this block is compiled to. -/
def Body.interruptedBlock : Body :=
  [.fragment ⟨Render.withAutoescape false (Body.write
    [.fragment ⟨do Render.bind "v" (← Render.evaluate ⟨.named "x", []⟩)⟩,
      .included Template.shownLength.identity Template.shownLength.serial
        Template.shownLength.body])⟩]

/-- The block uses its own binding and what the file uses. -/
private theorem compiledFrom_interruptedBlock :
    Body.interruptedBlock.CompiledFrom (.shownLength = ·) .strictDefault [.interruptedBlock]
      [.binding "v" ⟨.named "x", []⟩, .output .shownLength] := by
  let supply : List Supplied := [⟨"a", .shownLength, [.output .shownLength]⟩]
  have huses : Node.usesOf .strictDefault [.interruptedBlock] ++ supply.flatMap Supplied.uses =
      [.binding "v" ⟨.named "x", []⟩, .output .shownLength] := by
    cbv
  rw [← huses]
  refine @Body.CompiledFrom.intro (.shownLength = ·) _ _ _ .shownLength supply rfl ?_ ?_ ?_
  · intro u hu
    obtain rfl := List.mem_singleton.mp hu
    exact ⟨⟨⟨"/a"⟩, by decide +kernel, by decide +kernel⟩, rfl⟩
  · intro u hu
    obtain rfl := List.mem_singleton.mp hu
    exact Template.compiledFrom_shownLength rfl
  · cbv

/-- Where the file fails, output is escaped again, and all names but the bound one have the values
they had. -/
theorem Body.write_keeps_interruptedBlock :
    (Node.compileAll .strictDefault (Load.file .strictDefault .shownLength 3) [.interruptedBlock]
      (Engine.fresh .strictDefault 1).loading).1 = .ok Body.interruptedBlock ∧
    let s : RenderState := ⟨[("x", .string "i"), ("y", .bool true)], "", true, []⟩
    (Body.write .interruptedBlock s).1 = .error (.filter "length" "value has no length") ∧
      (Body.write .interruptedBlock s).2.autoescape = true ∧
      ∀ name, name ≠ "v" → Fields.find? name (Body.write .interruptedBlock s).2.scope =
        Fields.find? name s.scope := by
  have hbody : (Node.compileAll .strictDefault (Load.file .strictDefault .shownLength 3)
      [.interruptedBlock] (Engine.fresh .strictDefault 1).loading).1 = .ok Body.interruptedBlock := by
    cbv
  have hcache : (Engine.fresh .strictDefault 1).loading.cache.Sourced .strictDefault
      (.shownLength = ·) := Cache.sourced_of_templates rfl
  refine ⟨hbody, ?_⟩
  intro s
  obtain ⟨hflag, hscope⟩ := (write_keeps Registry.hasBuiltinTags_strictDefault rfl hcache hbody).2
    _ compiledFrom_interruptedBlock s
  refine ⟨by cbv, hflag, fun name hname ↦ hscope name fun e he ↦ hname ?_⟩
  rcases List.mem_cons.mp he with heq | hmem
  · cases heq
    rfl
  · cases List.mem_singleton.mp hmem

end Stencil
