import Stencil.Proofs.Judgment
import Stencil.Proofs.Sources

/-!
# Capturing and writing

Rendering only ever adds to the output, and what it adds, as all else that it does, is the same
whatever the output was before. Hence a body that is captured does what it does when it is written;
only the output is answered instead.
-/

namespace Stencil

/-! ### Steps that append -/

/-- Whatever the output was before, a step has the same outcome, leaves the same state apart from the
output, and appends the same text to it. -/
def Render.Appends {α : Type} (x : Render α) : Prop :=
  ∀ s : RenderState, ∃ (outcome : Except Error α) (written : String) (after : RenderState),
    ∀ earlier, x { s with output := earlier } =
      (outcome, { after with output := earlier ++ written })

namespace Render.Appends

variable {α β : Type} {x : Render α}

/-- A step that does not look at the output, and leaves it as it is, appends the empty text. -/
theorem of_silent (h : ∀ s : RenderState, ∃ (outcome : Except Error α) (after : RenderState),
    ∀ earlier, x { s with output := earlier } = (outcome, { after with output := earlier })) :
    x.Appends := by
  intro s
  obtain ⟨outcome, after, hx⟩ := h s
  refine ⟨outcome, "", after, fun earlier ↦ ?_⟩
  rw [hx, String.append_empty]

theorem pure (a : α) : Appends (pure a) :=
  of_silent fun s ↦ ⟨.ok a, s, fun _ ↦ rfl⟩

theorem write (text : String) : Appends (Render.write text) :=
  fun s ↦ ⟨.ok (), text, s, fun _ ↦ rfl⟩

theorem autoescape : Appends Render.autoescape :=
  of_silent fun s ↦ ⟨.ok s.autoescape, s, fun _ ↦ rfl⟩

/-- What is computed from the scope only shows nothing of the output. -/
theorem ofScope (f : Scope → Except Error α) :
    Appends (do ofExcept (f (← get).scope)) := by
  refine of_silent fun s ↦ ⟨f s.scope, s, fun earlier ↦ ?_⟩
  simp only [Computation.bind_apply, Computation.get_apply, Computation.ofExcept_apply]

theorem binding (name : String) (value : Value) : Appends (Render.bind name value) :=
  of_silent fun s ↦ ⟨.ok (), { s with scope := Fields.insert name value s.scope }, fun _ ↦ rfl⟩

/-- What two steps append stands one after the other. -/
theorem bind {f : α → Render β} (hx : x.Appends) (hf : ∀ a, (f a).Appends) :
    Appends (x >>= f) := by
  intro s
  obtain ⟨outcome, written, middle, hx⟩ := hx s
  cases outcome with
  | error e =>
    refine ⟨.error e, written, middle, fun earlier ↦ ?_⟩
    rw [Computation.bind_apply, hx]
  | ok a =>
    obtain ⟨outcome, more, after, hf⟩ := hf a middle
    refine ⟨outcome, written ++ more, after, fun earlier ↦ ?_⟩
    rw [Computation.bind_apply, hx, ← String.append_assoc]
    exact hf (earlier ++ written)

/-- A captured step answers what it would append, and leaves the output as it was. -/
theorem captured_eq {x : Render Unit} {s after : RenderState} {outcome : Except Error Unit}
    {written : String} (h : ∀ earlier,
      x { s with output := earlier } = (outcome, { after with output := earlier ++ written }))
    (earlier : String) : Render.captured x { s with output := earlier } =
      (outcome.map fun _ ↦ written, { after with output := earlier }) := by
  rw [captured_apply]
  dsimp only
  rw [h "", String.empty_append]

theorem captured {x : Render Unit} (hx : x.Appends) : Appends (Render.captured x) := by
  refine of_silent fun s ↦ ?_
  obtain ⟨outcome, written, after, h⟩ := hx s
  exact ⟨outcome.map fun _ ↦ written, after, captured_eq h⟩

theorem withAutoescape (flag : Bool) {x : Render Unit} (hx : x.Appends) :
    Appends (Render.withAutoescape flag x) := by
  intro s
  obtain ⟨outcome, written, after, h⟩ := hx { s with autoescape := flag }
  refine ⟨outcome, written, { after with autoescape := s.autoescape }, fun earlier ↦ ?_⟩
  rw [withAutoescape_apply]
  dsimp only at h ⊢
  rw [h earlier]

end Render.Appends

/-- With the built-in raw tags only, every step of rendering appends. -/
def Render.appending (r : Registry) : Render.Judgment r fun _ ↦ True where
  Holds := Appends
  pure := .pure
  bind := .bind
  write := .write
  autoescape := .autoescape
  evaluate {_ _ _ b} _ _ _ := .ofScope b.evaluate
  binding value _ := .binding _ value
  chain value _ _ := .ofScope fun scope ↦ FilterChain.apply scope _ value
  captured := .captured
  withAutoescape := .withAutoescape

/-! ### Bodies -/

/-- Capturing a body is writing it. A body that was compiled with the built-in raw tags only, from any
nodes and with any files behind its inclusions, has in each state one outcome, appends one text to the
output and leaves one scope and one flag of escaping, whatever the output was before. When it is
captured, the outcome and the state are the same, but the output stays, also after a failure, and the
text is the answer. -/
theorem Body.capture_of_write {r : Registry} {fs : FileSystem} {files : FileSystem → Prop}
    (hr : r.HasBuiltinTags) (hfs : files fs) {loading : Loading}
    (hcache : loading.cache.Sourced r files) {depth : Nat} {nodes : List Node} {body : Body}
    (h : (Node.compileAll r (Load.file r fs depth) nodes loading).1 = .ok body) (s : RenderState) :
    ∃ (outcome : Except Error Unit) (written : String) (after : RenderState), ∀ earlier,
      Body.write body { s with output := earlier } =
        (outcome, { after with output := earlier ++ written }) ∧
      Body.capture body { s with output := earlier } =
        (outcome.map fun _ ↦ written, { after with output := earlier }) := by
  obtain ⟨uses, hcompiled⟩ := Load.compiledFrom_of_compileAll hfs hcache h
  have happends : Render.Appends (Instruction.runAll body) :=
    (Render.appending r).holds_of_body hr hcompiled fun _ _ ↦ trivial
  obtain ⟨outcome, written, after, hwrite⟩ := happends s
  exact ⟨outcome, written, after, fun earlier ↦
    ⟨hwrite earlier, Render.Appends.captured_eq hwrite earlier⟩⟩

/-- A text that writes something, captures what a file renders, and fails before the capture ends. -/
def interruptedCapture : String :=
  "a\x7b% filter lower %\x7d\x7b% include \"a\" %\x7d\x7b\x7b z | length \x7d\x7d\x7b% endfilter %\x7d"

/-- The body of this text appends what stands before the capture, and keeps the binding that the file
makes in it. When it is captured, it fails alike, and no trace of what it wrote is left. -/
theorem Body.capture_of_write_interrupted :
    let s (output : String) : RenderState :=
      ⟨[("x", .string "<i>"), ("z", .bool true)], output, true, []⟩
    let e := Error.filter "length" "value has no length"
    ∃ nodes body, Node.parse Registry.strictDefault.tagKind? interruptedCapture = .ok nodes ∧
      (Node.compileAll .strictDefault (Load.file .strictDefault .oneInclusion 5) nodes
        (Engine.fresh .strictDefault 1).loading).1 = .ok body ∧
      ∃ after : RenderState, Fields.names after.scope = ["x", "y", "z"] ∧
        ∀ earlier, Body.write body (s earlier) =
            (.error e, { after with output := earlier ++ "a" }) ∧
          Body.capture body (s earlier) = (.error e, { after with output := earlier }) := by
  intro s e
  have hrun : ((Node.parse Registry.strictDefault.tagKind? interruptedCapture).bind fun nodes ↦
      (Node.compileAll .strictDefault (Load.file .strictDefault .oneInclusion 5) nodes
        (Engine.fresh .strictDefault 1).loading).1.map fun body ↦
          let (outcome, after) := Body.write body (s "")
          (outcome, after.output, Fields.names after.scope)) =
      .ok (.error e, "a", ["x", "y", "z"]) := by
    decide +kernel
  obtain ⟨nodes, hnodes, hmap⟩ := Computation.bind_eq_ok.mp hrun
  obtain ⟨body, hbody, hwrite⟩ := Computation.map_eq_ok.mp hmap
  have hcache : (Engine.fresh .strictDefault 1).loading.cache.Sourced .strictDefault
      (.oneInclusion = ·) := Cache.sourced_of_templates rfl
  obtain ⟨outcome, written, after, h⟩ := capture_of_write Registry.hasBuiltinTags_strictDefault
    rfl hcache hbody (s "")
  have hfirst := (h "").1
  rw [String.empty_append] at hfirst
  rw [hfirst, Prod.mk.injEq, Prod.mk.injEq] at hwrite
  obtain ⟨rfl, rfl, hnames⟩ := hwrite
  exact ⟨nodes, body, hnodes, hbody, after, hnames, h⟩

end Stencil
