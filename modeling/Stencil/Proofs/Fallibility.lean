import Stencil.Proofs.Dependence

/-!
# Where rendering can fail

Compiling looks up every name that a template needs. What is left to fail while the template is
rendered are the filters themselves; of the built-in ones only `length`, `replace` and `add` reject
some values or arguments.
-/

namespace Stencil

/-! ### Built-in filters -/

namespace Filter

/-- The built-in filters that can fail. -/
def fallible : List String := ["length", "replace", "add"]

/-- A filter fails only if it is one that can, with an error that names it. -/
def FailsAs (name : String) (filter : Filter) : Prop :=
  ∀ value arguments e, filter.apply value arguments = .error e →
    name ∈ fallible ∧ ∃ reason, e = .filter name reason

variable {name : String}

private theorem failsAs_ofTotal (f : Value → List Value → Value) : FailsAs name (ofTotal f) := nofun

private theorem failsAs_ofText (f : List Char → List Char) : FailsAs name (ofText f) := nofun

private theorem failsAs_escape : FailsAs name escape := nofun

private theorem failsAs_length : FailsAs "length" length := by
  intro value arguments e h
  unfold length at h
  dsimp only at h
  split at h <;> cases h
  exact ⟨by decide, _, rfl⟩

private theorem failsAs_replace : FailsAs "replace" replace := by
  intro value arguments e h
  unfold replace at h
  dsimp only at h
  split at h
  · split at h <;> cases h
  · cases h
    exact ⟨by decide, _, rfl⟩

private theorem failsAs_add : FailsAs "add" add := by
  intro value arguments e h
  unfold add at h
  dsimp only at h
  split at h <;> cases h
  exact ⟨by decide, _, rfl⟩

/-- Each built-in filter fails only if it is one that can, with an error that names it. -/
theorem failsAs_of_mem_builtins {entry : String × Filter} (h : entry ∈ builtins) :
    FailsAs entry.1 entry.2 := by
  have hall : ∀ entry ∈ builtins, FailsAs entry.1 entry.2 := by
    simp only [builtins, List.forall_mem_cons]
    exact ⟨failsAs_ofText _, failsAs_ofText _, failsAs_ofText _, failsAs_ofText _, failsAs_length,
      failsAs_ofTotal _, failsAs_ofTotal _, failsAs_ofTotal _, failsAs_ofTotal _,
      failsAs_ofTotal _, failsAs_escape, failsAs_escape, failsAs_ofTotal _, failsAs_ofTotal _,
      failsAs_replace, failsAs_ofText _, failsAs_ofTotal _, failsAs_ofTotal _, failsAs_add,
      failsAs_ofTotal _, failsAs_ofText _, nofun⟩
  exact hall entry h

end Filter

/-- The filters of a registry are the built-in ones. -/
def Registry.HasBuiltinFilters (r : Registry) : Prop := r.filters = Fields.ofList Filter.builtins

/-- A set-up without filters of its own has the built-in ones. -/
theorem Registry.hasBuiltinFilters_ofOptions (serial : Nat) (workingDirectory : Path) {o : Options}
    (h : o.filters = []) : (Registry.ofOptions serial workingDirectory o).HasBuiltinFilters := by
  unfold HasBuiltinFilters ofOptions
  rw [h]
  rfl

/-- Where the filters are the built-in ones, a filter fails only if it is one that can, with an error
that names it. -/
theorem Registry.HasBuiltinFilters.failsAs {r : Registry} (hr : r.HasBuiltinFilters) {name : String}
    {filter : Filter} (h : r.filter? name = some filter) : filter.FailsAs name := by
  unfold Registry.filter? at h
  rw [hr] at h
  exact Filter.failsAs_of_mem_builtins (Fields.mem_ofList (Fields.mem_of_find? h))

/-! ### Expressions -/

/-- An error of a filter that can fail, which is one of those called. -/
def Error.IsFilterFailure (called : String → Prop) (e : Error) : Prop :=
  ∃ name reason, e = .filter name reason ∧ name ∈ Filter.fallible ∧ called name

section Expressions

variable {r : Registry} {called : String → Prop} {place : Place}

/-- A chain fails only where one of its filters does. -/
theorem FilterChain.isFilterFailure_of_apply (hr : r.HasBuiltinFilters) {calls : List FilterCall}
    {chain : FilterChain} (h : FilterChain.bind r.filter? place calls = .ok chain)
    (hcalled : ∀ call ∈ calls, called call.name) {scope : Scope} {value : Value} {e : Error}
    (hfails : FilterChain.apply scope chain value = .error e) : e.IsFilterFailure called := by
  induction calls generalizing chain value with
  | nil =>
    cases h
    cases hfails
  | cons call rest ih =>
    rw [FilterChain.bind] at h
    split at h
    · cases h
    · next filter hfilter =>
      obtain ⟨later, hlater, rfl⟩ := Computation.map_eq_ok.mp h
      rw [FilterChain.apply] at hfails
      dsimp only at hfails
      split at hfails
      · exact ih hlater (fun c hc ↦ hcalled c (List.mem_cons_of_mem _ hc)) hfails
      · next error herror =>
        cases hfails
        obtain ⟨hfallible, reason, heq⟩ := hr.failsAs hfilter _ _ _ herror
        exact ⟨call.name, reason, heq, hfallible, hcalled call List.mem_cons_self⟩

/-- An expression fails only where one of its filters does. -/
theorem BoundExpression.isFilterFailure_of_evaluate (hr : r.HasBuiltinFilters) {e : Expression}
    {b : BoundExpression} (h : BoundExpression.bind r.filter? place e = .ok b)
    (hcalled : ∀ call ∈ e.filters, called call.name) {scope : Scope} {error : Error}
    (hfails : b.evaluate scope = .error error) : error.IsFilterFailure called := by
  obtain ⟨chain, hchain, rfl⟩ := Computation.map_eq_ok.mp h
  exact FilterChain.isFilterFailure_of_apply hr hchain hcalled hfails

end Expressions

/-! ### Templates -/

/-- A step fails only where a filter does that is called. -/
def Render.FailsInFilters {α : Type} (called : String → Prop) (x : Render α) : Prop :=
  ∀ s e, (x s).1 = .error e → e.IsFilterFailure called

/-- Where the filters are the built-in ones, templates fail only in the filters that they call. -/
def Render.filterFailures {r : Registry} (hr : r.HasBuiltinFilters) (called : String → Prop) :
    Render.Judgment r fun use ↦ ∀ name ∈ use.filterNames, called name where
  Holds := FailsInFilters called
  pure _ _ _ h := nomatch h
  bind := by
    intro _ _ x f hx hf s e h
    have hfirst := hx s
    rw [Computation.bind_apply] at h
    rcases hs : x s with ⟨error | a, middle⟩ <;> rw [hs] at h hfirst
    · cases h
      exact hfirst e rfl
    · exact hf a middle e h
  write _ _ _ h := nomatch h
  autoescape _ _ h := nomatch h
  evaluate := by
    intro use e place b huse he hb s error h
    have hcalled : ∀ call ∈ e.filters, called call.name := by
      intro call hcall
      refine huse call.name ?_
      cases use <;> cases he <;> exact List.mem_map_of_mem hcall
    unfold Render.evaluate at h
    simp only [Computation.bind_apply, Computation.get_apply, Computation.ofExcept_apply] at h
    exact BoundExpression.isFilterFailure_of_evaluate hr hb hcalled h
  binding _ _ _ _ h := nomatch h
  chain := by
    intro calls place chain value huse hchain s error h
    simp only [Computation.bind_apply, Computation.get_apply, Computation.ofExcept_apply] at h
    exact FilterChain.isFilterFailure_of_apply hr hchain
      (fun call hcall ↦ huse call.name (List.mem_map_of_mem hcall)) h
  captured := by
    intro x hx s e h
    have hinner := hx { s with output := "" } e
    rw [captured_apply] at h
    rcases hs : (x { s with output := "" }).1 with error | _ <;> rw [hs] at h hinner <;> cases h
    exact hinner rfl
  withAutoescape := by
    intro flag x hx s e h
    rw [withAutoescape_apply] at h
    exact hx { s with autoescape := flag } e h

/-- A template fails only in a filter that it calls and that can fail. -/
theorem Template.isFilterFailure_of_write {t : Template} {files : FileSystem → Prop}
    {uses : List Use} (htags : t.registry.HasBuiltinTags)
    (hfilters : t.registry.HasBuiltinFilters) (huses : t.Uses files uses) {s : RenderState}
    {e : Error} (h : (Body.write t.body s).1 = .error e) :
    e.IsFilterFailure fun name ↦ ∃ use ∈ uses, name ∈ use.filterNames :=
  (Render.filterFailures hfilters _).holds_of_uses htags rfl huses
    (fun use huse _ hname ↦ ⟨use, huse, hname⟩) s e h

namespace Session

/-- A template that was compiled can only fail in a filter. In a session all of whose set-ups have
only the built-in filters and raw tags, each template that a request gave renders in every scope, or
it fails with an error of `length`, `replace` or `add`, a filter that is called in one of the texts
that it was compiled from. If none of the three is called in them, it renders in every scope what it
writes, under either policy. -/
theorem render_fails_in_filters {serial : Nat} {workingDirectory : Path} {o : Options}
    {fs : FileSystem} {commands : List Command} (ho : o.filters = [] ∧ o.rawTags = [])
    (hinit : ∀ wd o', .init wd o' ∈ commands → o'.filters = [] ∧ o'.rawTags = []) {t : Template}
    (ht : .ok t ∈ ((start serial workingDirectory o fs).after commands).results) :
    (∃ uses, t.Uses ((start serial workingDirectory o fs).Served commands) uses) ∧
    ∀ uses, t.Uses ((start serial workingDirectory o fs).Served commands) uses →
      ∀ scope calls,
        ((∃ output, (t.render scope calls).1 = .ok output) ∨
          ∃ name reason, (t.render scope calls).1 = .error (.filter name reason) ∧
            name ∈ ["length", "replace", "add"] ∧ ∃ use ∈ uses, name ∈ use.filterNames) ∧
        ((∀ use ∈ uses, ∀ name ∈ use.filterNames, name ∉ ["length", "replace", "add"]) →
          ∃ after, Body.write t.body (t.initialState scope calls) = (.ok (), after) ∧
            t.render scope calls = (.ok after.output, after.calls)) := by
  obtain ⟨⟨htags, hfilters⟩, huses⟩ := exists_uses
    (P := fun r ↦ r.HasBuiltinTags ∧ r.HasBuiltinFilters) rfl rfl
    ⟨Registry.hasBuiltinTags_ofOptions serial workingDirectory ho.2,
      Registry.hasBuiltinFilters_ofOptions serial workingDirectory ho.1⟩
    (fun wd o' hmem n ↦ ⟨Registry.hasBuiltinTags_ofOptions n wd (hinit wd o' hmem).2,
      Registry.hasBuiltinFilters_ofOptions n wd (hinit wd o' hmem).1⟩) ht
  refine ⟨huses, fun uses huses scope calls ↦ ?_⟩
  have hfails (e : Error) := Template.isFilterFailure_of_write htags hfilters huses
    (s := t.initialState scope calls) (e := e)
  unfold Template.render
  rcases hrun : Body.write t.body (t.initialState scope calls) with ⟨e | _, after⟩ <;>
    rw [hrun] at hfails
  · obtain ⟨name, reason, rfl, hname, huse⟩ := hfails e rfl
    refine ⟨?_, fun hnone ↦ ?_⟩
    · dsimp only
      cases t.policy.isStrict with
      | true => exact .inr ⟨name, reason, rfl, hname, huse⟩
      | false => exact .inl ⟨_, rfl⟩
    · obtain ⟨use, hmem, hcalled⟩ := huse
      exact absurd hname (hnone use hmem name hcalled)
  · exact ⟨.inl ⟨_, rfl⟩, fun _ ↦ ⟨after, rfl, rfl⟩⟩

/-- A text that includes a file fails in the filter that the file calls, for a value without a
length. -/
theorem render_fails_in_filters_joining :
    .ok Template.joinedItems ∈ (joining.after [.request (.text joinedItems)]).results ∧
      (Template.joinedItems.render [("y", .bool true)] []).1 =
        .error (.filter "length" "value has no length") ∧
      "length" ∈ ["length", "replace", "add"] ∧
      ∃ use ∈ [Use.output .joinedItems, .output .shownLength], "length" ∈ use.filterNames := by
  have hresult : .ok Template.joinedItems ∈
      (joining.after [.request (.text joinedItems)]).results :=
    results_joining ▸ List.mem_singleton_self _
  have hrender : (Template.joinedItems.render [("y", .bool true)] []).1 =
      .error (.filter "length" "value has no length") := by
    cbv
  have hfails := ((render_fails_in_filters ⟨rfl, rfl⟩
    (fun wd o' hmem ↦ by cases List.mem_singleton.mp hmem) hresult).2 _ Template.uses_joinedItems
    [("y", .bool true)] []).1
  rcases hfails with ⟨output, houtput⟩ | ⟨name, reason, herror, hname, huse⟩
  · cases hrender.symm.trans houtput
  · cases hrender.symm.trans herror
    exact ⟨hresult, hrender, hname, huse⟩

end Session

end Stencil
