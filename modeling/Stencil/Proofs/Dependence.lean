import Stencil.Proofs.Judgment
import Stencil.Proofs.Sources

/-!
# What rendering depends on

Rendering reads the scope at the names that a template mentions, and nowhere else. While it goes on,
tags bind names, and they bind the same values in two scopes that agree on the mentioned names; so
these go on to agree.
-/

namespace Stencil

/-- Two scopes in which some names have the same values. -/
def Scope.AgreeOn (names : List String) (s t : Scope) : Prop :=
  ∀ name ∈ names, Fields.find? name s = Fields.find? name t

/-- Two states that are the same except for the values of names other than the given ones. -/
structure RenderState.AgreeOn (names : List String) (s t : RenderState) : Prop where
  scope : Scope.AgreeOn names s.scope t.scope
  output : s.output = t.output
  autoescape : s.autoescape = t.autoescape
  calls : s.calls = t.calls

/-! ### Expressions -/

section Expressions

variable {r : Registry} {place : Place} {s t : Scope}

/-- A filter chain gives the same in two scopes that agree on the names in its arguments. -/
theorem FilterChain.apply_congr {calls : List FilterCall} {chain : FilterChain}
    (h : FilterChain.bind r.filter? place calls = .ok chain)
    (hagree : Scope.AgreeOn (calls.flatMap FilterCall.names) s t) (value : Value) :
    FilterChain.apply s chain value = FilterChain.apply t chain value := by
  induction calls generalizing chain value with
  | nil =>
    cases h
    rfl
  | cons call rest ih =>
    rw [FilterChain.bind] at h
    split at h
    · cases h
    · next filter hfilter =>
      obtain ⟨later, hlater, rfl⟩ := Computation.map_eq_ok.mp h
      rw [List.flatMap_cons] at hagree
      have harguments : call.arguments.map (Expr.evaluate s) =
          call.arguments.map (Expr.evaluate t) := by
        refine List.map_congr_left fun e he ↦ Expr.evaluate_congr fun name hname ↦ ?_
        exact hagree name (List.mem_append_left _ (List.mem_flatMap.mpr ⟨e, he, hname⟩))
      rw [FilterChain.apply, FilterChain.apply]
      dsimp only
      rw [harguments]
      cases filter.apply value (call.arguments.map (Expr.evaluate t)) with
      | ok next => exact ih hlater (fun name hname ↦ hagree name (List.mem_append_right _ hname)) next
      | error e => rfl

/-- An expression has the same value in two scopes that agree on its names. -/
theorem BoundExpression.evaluate_congr {e : Expression} {b : BoundExpression}
    (h : BoundExpression.bind r.filter? place e = .ok b) (hagree : Scope.AgreeOn e.names s t) :
    b.evaluate s = b.evaluate t := by
  obtain ⟨chain, hchain, rfl⟩ := Computation.map_eq_ok.mp h
  have hbase : e.base.evaluate s = e.base.evaluate t :=
    Expr.evaluate_congr fun name hname ↦ hagree name (List.mem_append_left _ hname)
  rw [BoundExpression.evaluate, BoundExpression.evaluate, hbase]
  exact FilterChain.apply_congr hchain
    (fun name hname ↦ hagree name (List.mem_append_right _ hname)) _

end Expressions

/-! ### Two runs -/

/-- From two states that agree on some names a step answers the same, and the states that it leaves
agree on them again. -/
def Render.RunsAlike {α : Type} (names : List String) (x : Render α) : Prop :=
  ∀ s t : RenderState, s.AgreeOn names t → (x s).1 = (x t).1 ∧ (x s).2.AgreeOn names (x t).2

/-- A template whose uses mention some names only runs alike from states that agree on them. -/
def Render.agreement (r : Registry) (names : List String) :
    Render.Judgment r fun use ↦ use.names ⊆ names where
  Holds := RunsAlike names
  pure _ _ _ h := ⟨rfl, h⟩
  bind := by
    intro _ _ x f hx hf s t h
    obtain ⟨houtcome, hstate⟩ := hx s t h
    rw [Computation.bind_apply, Computation.bind_apply]
    rcases hs : x s with ⟨e | a, middle⟩ <;> rcases ht : x t with ⟨e' | a', middle'⟩ <;>
      rw [hs, ht] at houtcome hstate <;> cases houtcome
    · exact ⟨rfl, hstate⟩
    · exact hf a middle middle' hstate
  write text _ _ h := ⟨rfl, h.scope, congrArg (· ++ text) h.output, h.autoescape, h.calls⟩
  autoescape s t h := ⟨congrArg Except.ok h.autoescape, h⟩
  evaluate := by
    intro use e place b huse he hb s t h
    have hnames : e.names ⊆ names := by cases use <;> cases he <;> exact huse
    have hvalue := BoundExpression.evaluate_congr hb fun name hname ↦ h.scope name (hnames hname)
    unfold Render.evaluate
    simp only [Computation.bind_apply, Computation.get_apply, Computation.ofExcept_apply]
    exact ⟨hvalue, h⟩
  binding := by
    intro name _ value _ s t h
    refine ⟨rfl, fun other hother ↦ ?_, h.output, h.autoescape, h.calls⟩
    change Fields.find? other (Fields.insert name value s.scope) =
      Fields.find? other (Fields.insert name value t.scope)
    rw [Fields.find?_insert, Fields.find?_insert, h.scope other hother]
  chain := by
    intro calls place chain value hcalls hchain s t h
    have hvalue := FilterChain.apply_congr hchain (fun name hname ↦ h.scope name (hcalls hname)) value
    simp only [Computation.bind_apply, Computation.get_apply, Computation.ofExcept_apply]
    exact ⟨hvalue, h⟩
  captured := by
    intro x hx s t h
    obtain ⟨houtcome, hstate⟩ := hx { s with output := "" } { t with output := "" }
      ⟨h.scope, rfl, h.autoescape, h.calls⟩
    rw [captured_apply, captured_apply, houtcome, hstate.output]
    exact ⟨rfl, hstate.scope, h.output, hstate.autoescape, hstate.calls⟩
  withAutoescape := by
    intro flag x hx s t h
    obtain ⟨houtcome, hstate⟩ := hx { s with autoescape := flag } { t with autoescape := flag }
      ⟨h.scope, h.output, rfl, h.calls⟩
    rw [withAutoescape_apply, withAutoescape_apply, houtcome]
    exact ⟨rfl, hstate.scope, hstate.output, h.autoescape, hstate.calls⟩

/-! ### Templates -/

/-- A template renders alike in two scopes that agree on the names that it mentions. -/
theorem Template.render_eq_of_uses {t : Template} {files : FileSystem → Prop} {uses : List Use}
    (hr : t.registry.HasBuiltinTags) (huses : t.Uses files uses) {scope scope' : Scope}
    (hagree : ∀ use ∈ uses, Scope.AgreeOn use.names scope scope') (calls : CallLog) :
    t.render scope calls = t.render scope' calls := by
  have hruns : Render.RunsAlike (uses.flatMap Use.names) (Instruction.runAll t.body) :=
    (Render.agreement t.registry (uses.flatMap Use.names)).holds_of_uses hr rfl huses
      fun use huse name hname ↦ List.mem_flatMap.mpr ⟨use, huse, hname⟩
  obtain ⟨houtcome, hstate⟩ := hruns (t.initialState scope calls) (t.initialState scope' calls)
    ⟨fun name hname ↦ by
      obtain ⟨use, huse, hname⟩ := List.mem_flatMap.mp hname
      exact hagree use huse name hname, rfl, rfl, rfl⟩
  unfold Template.render Body.write
  rcases hs : Instruction.runAll t.body (t.initialState scope calls) with ⟨e | _, after⟩ <;>
    rcases ht : Instruction.runAll t.body (t.initialState scope' calls) with ⟨e' | _, after'⟩ <;>
    rw [hs, ht] at houtcome hstate <;> cases houtcome
  · dsimp only
    rw [hstate.calls]
  · dsimp only
    rw [hstate.output, hstate.calls]

/-- A set-up without raw tags of its own has the built-in ones. -/
theorem Registry.hasBuiltinTags_ofOptions (serial : Nat) (workingDirectory : Path) {o : Options}
    (h : o.rawTags = []) : (Registry.ofOptions serial workingDirectory o).HasBuiltinTags := by
  unfold HasBuiltinTags ofOptions
  rw [h]
  rfl

namespace Session

/-- Rendering depends on nothing but what a template mentions. In a session all of whose set-ups have
only the built-in raw tags, each template that a request gave uses the outputs, the arguments of
simple tags, the bindings and the filter chains in the texts that it was compiled from, its own one
and those of the files that it includes; it renders alike, with the same output or the same error, in
all scopes that agree on the names in them. -/
theorem render_eq_of_agree {serial : Nat} {workingDirectory : Path} {o : Options} {fs : FileSystem}
    {commands : List Command} (ho : o.rawTags = [])
    (hinit : ∀ wd o', .init wd o' ∈ commands → o'.rawTags = []) {t : Template}
    (ht : .ok t ∈ ((start serial workingDirectory o fs).after commands).results) :
    (∃ uses, t.Uses ((start serial workingDirectory o fs).Served commands) uses) ∧
    ∀ uses, t.Uses ((start serial workingDirectory o fs).Served commands) uses →
      ∀ scope scope' calls, (∀ use ∈ uses, Scope.AgreeOn use.names scope scope') →
        t.render scope calls = t.render scope' calls := by
  obtain ⟨hr, huses⟩ := exists_uses rfl rfl
    (Registry.hasBuiltinTags_ofOptions serial workingDirectory ho)
    (fun wd o' hmem n ↦ Registry.hasBuiltinTags_ofOptions n wd (hinit wd o' hmem)) ht
  exact ⟨huses, fun uses huses scope scope' calls hagree ↦
    Template.render_eq_of_uses hr huses hagree calls⟩

/-- A text that includes a file renders alike whatever stands under a name that is in neither. -/
theorem render_eq_of_agree_joining :
    .ok Template.joinedItems ∈ (joining.after [.request (.text joinedItems)]).results ∧
      Template.joinedItems.render [("w", .bool true), ("y", .string "ab")] [] =
        Template.joinedItems.render [("y", .string "ab")] [] := by
  have hresult : .ok Template.joinedItems ∈
      (joining.after [.request (.text joinedItems)]).results :=
    results_joining ▸ List.mem_singleton_self _
  refine ⟨hresult, (render_eq_of_agree rfl (fun wd o' hmem ↦ ?_) hresult).2 _
    Template.uses_joinedItems _ _ [] ?_⟩
  · cases List.mem_singleton.mp hmem
  · have hnames : ∀ use ∈ [Use.output .joinedItems, .output .shownLength], "w" ∉ use.names := by
      simp [Use.names, Expression.names, FilterCall.names, Expr.names, Expression.joinedItems,
        Expression.shownLength]
    intro use huse name hname
    have hne : "w" ≠ name := fun h ↦ hnames use huse (h ▸ hname)
    rw [Fields.find?, if_neg hne]

end Session

end Stencil
