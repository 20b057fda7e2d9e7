import Stencil.Proofs.Compile
import Stencil.Proofs.History

/-!
# Texts that load nothing

Nodes without inclusions are compiled to the same outcome in every setting. So a text of such nodes
is answered alike at any point of a session, whether it is cached by then or not.
-/

namespace Stencil

/-- Steps of loading that leave the state as it is, beside outcomes. -/
def Load.silent : Comparison Load (Except Error) where
  rel P x y := ∀ s, (x s).2 = s ∧ SameOutcome P (x s).1 y
  rel_pure h _ := ⟨rfl, h⟩
  rel_throw _ _ := ⟨rfl, rfl⟩
  rel_bind := by
    intro _ _ _ _ P Q x y f g hxy hfg s
    obtain ⟨hstate, houtcome⟩ := hxy s
    rw [Computation.bind_apply]
    rcases hx : x s with ⟨e | a, after⟩ <;> rw [hx] at hstate houtcome <;> cases hstate <;> cases y
    · exact ⟨rfl, houtcome⟩
    · exact houtcome.elim
    · exact houtcome.elim
    · exact hfg _ _ houtcome _
  rel_map := by
    intro _ _ _ _ P Q x y f g hxy hfg s
    obtain ⟨hstate, houtcome⟩ := hxy s
    rw [Computation.map_apply]
    rcases hx : x s with ⟨e | a, after⟩ <;> rw [hx] at hstate houtcome <;> cases hstate <;> cases y
    · exact ⟨rfl, houtcome⟩
    · exact houtcome.elim
    · exact houtcome.elim
    · exact ⟨rfl, hfg _ _ houtcome⟩

namespace Node

variable {r : Registry} {nodes : List Node}

private theorem notMem_loadsOf (h : loadsOf r nodes = []) {p : String → Prop} :
    ∀ identifier ∈ loadsOf r nodes, p identifier := by
  rw [h]
  nofun

/-- Nodes that load nothing have one outcome, whatever the loader. -/
theorem compileAll_of_loadsOf_eq_nil (h : loadsOf r nodes = [])
    (load other : String → Except Error Template) :
    compileAll r load nodes = compileAll r other nodes := by
  have hrel : SameOutcome (List.Forall₂ Eq) (compileAll r load nodes) (compileAll r other nodes) :=
    rel_compileAll_of_loads outcomes (respects_self r) (.refl r) nodes (notMem_loadsOf h)
  rw [List.forall₂_eq_eq_eq] at hrel
  exact sameOutcome_eq.mp hrel

/-- Nodes that load nothing have this outcome also where loading has a state, and leave it as it is.
-/
theorem compileAll_apply_of_loadsOf_eq_nil (h : loadsOf r nodes = [])
    (load : String → Load Template) (other : String → Except Error Template) (s : Loading) :
    compileAll r load nodes s = (compileAll r other nodes, s) := by
  have hrel : ∀ s, (compileAll r load nodes s).2 = s ∧
      SameOutcome (List.Forall₂ Eq) (compileAll r load nodes s).1 (compileAll r other nodes) :=
    rel_compileAll_of_loads Load.silent (respects_self r) (.refl r) nodes (notMem_loadsOf h)
  obtain ⟨hstate, houtcome⟩ := hrel s
  rw [List.forall₂_eq_eq_eq] at houtcome
  exact Prod.ext (sameOutcome_eq.mp houtcome) hstate

end Node

/-- What an engine with a registry answers for a text whose nodes have an outcome: a template with
the body, or the error, in the form that the policy wants. -/
def Registry.Settles (r : Registry) :
    Except Error Body → Except Error Template → Prop
  | .ok body, out => ∃ t, out = .ok t ∧ t.registry = r ∧ t.body = body
  | .error e, out => ∃ t : Template,
    out = (if r.policy.isStrict || e.kind == .filesUnavailable then .error e else .ok t) ∧
      t.registry = r ∧ t.body = [.text e.block]

section

variable {r : Registry} {load : String → Load Template} {identity : Identity} {source : String}
  {nodes : List Node} {outcome : Except Error Body}

/-- A text whose nodes have an outcome is built at once, or fails at once. -/
private theorem Load.build_apply (hnodes : Node.parse r.tagKind? source = .ok nodes)
    (houtcome : ∀ s, Node.compileAll r load nodes s = (outcome, s)) (s : Loading) :
    build r load identity source s = match outcome with
      | .ok body => (.ok ⟨identity, s.nextSerial, r, body⟩, { s with nextSerial := s.nextSerial + 1 })
      | .error e => (.error e, s) := by
  have hread : (ofExcept (Except.ok nodes : Except Error (List Node)) : Load (List Node)) =
      pure nodes := rfl
  rw [build, hnodes, hread, pure_bind, Computation.bind_apply, houtcome]
  cases outcome <;> rfl

/-- Loading such a text gives its outcome if each cached template of the same identity has it. -/
private theorem Load.template_of_outcome (hnodes : Node.parse r.tagKind? source = .ok nodes)
    (houtcome : ∀ s, Node.compileAll r load nodes s = (outcome, s)) {s : Loading}
    (hfresh : s.stack.contains identity = false)
    (hcached : ∀ t ∈ s.cache.templates, t.identity.same identity = true →
      t.registry = r ∧ outcome = .ok t.body) :
    SameOutcome (fun body t ↦ t.registry = r ∧ t.body = body) outcome
      (template r load identity (pure source) s).1 := by
  have htemplates := s.cache.templates_get identity
  rw [template_apply]
  rcases Cache.get_cases s.cache identity with
    ⟨t, found, hfound, -, ht, hsame⟩ | ⟨missed, hmissed, -⟩
  · obtain ⟨hregistry, hbody⟩ := hcached t ht hsame
    rw [hfound, hbody]
    exact ⟨hregistry, rfl⟩
  · rw [hmissed] at htemplates ⊢
    rw [IncludeStack.enter_eq_ok.mpr ⟨hfresh, rfl⟩, pure_bind]
    dsimp only
    rw [build_apply hnodes houtcome]
    cases outcome with
    | error e => rfl
    | ok body =>
      generalize hbuilt : Template.mk identity _ r body = t
      have ht : t.identity = identity ∧ t.registry = r ∧ t.body = body := by
        rw [← hbuilt]
        exact ⟨rfl, rfl, rfl⟩
      cases henabled : missed.enabled with
      | false =>
        dsimp only
        rw [hbuilt, Cache.insert_of_not_enabled henabled]
        exact ht.2
      | true =>
        obtain ⟨hmem, hsame⟩ := Cache.mem_insert henabled t
        rcases Cache.mem_of_mem_insert hmem with hnew | hold
        · dsimp only
          rw [hbuilt, hnew]
          exact ht.2
        · dsimp only
          rw [hbuilt]
          obtain ⟨hregistry, hbody⟩ := hcached _ (htemplates ▸ hold) (ht.1 ▸ hsame)
          exact ⟨hregistry, (Except.ok.inj hbody).symm⟩

end

/-- A text that loads nothing has one outcome at any point of a session, whether it is cached or
not. -/
theorem Session.settles_of_loadsOf_eq_nil {serial : Nat} {workingDirectory : Path} {o : Options}
    {fs : FileSystem} {commands : List Command} {s : Session} {source : String}
    {nodes : List Node} (hs : (start serial workingDirectory o fs).after commands = s)
    (hnodes : Node.parse s.engine.registry.tagKind? source = .ok nodes)
    (hloads : Node.loadsOf s.engine.registry nodes = [])
    (load : String → Except Error Template) :
    s.engine.registry.Settles (Node.compileAll s.engine.registry load nodes)
      (s.engine.compile s.files source).1 := by
  have hstart := Engine.tidy_ofOptions serial workingDirectory o
  have htidy : s.engine.Tidy := hs ▸ tidy_after hstart commands
  have hcached : ∀ t ∈ s.engine.cache.templates, t.identity.same (.source source) = true →
      t.registry = s.engine.registry ∧
        Node.compileAll s.engine.registry load nodes = .ok t.body := by
    intro t ht hsame
    have hregistry := htidy.registry t ht
    have hidentity : t.identity = .source source := by
      cases hidentity : t.identity <;> rw [hidentity] at hsame
      · rw [eq_of_beq hsame]
      · cases hsame
      · cases hsame
    -- What was compiled before was compiled from the same text.
    have haccounted : (start serial workingDirectory o fs).Accounted commands t :=
      accounted_after hstart rfl (hs ▸ ht)
    obtain ⟨earlier, -, -, -, -, -, -, others, hothers, hcompile⟩ := haccounted.origin
    rw [hregistry, hidentity] at hothers
    obtain rfl : nodes = others := Except.ok.inj (hnodes.symm.trans hothers)
    rw [hregistry] at hcompile
    exact ⟨hregistry, (Node.compileAll_of_loadsOf_eq_nil hloads _ _).trans hcompile⟩
  have hload : SameOutcome _ _ (Load.template s.engine.registry (Load.file s.engine.registry s.files
      (s.files.size + source.utf8ByteSize + 1)) (.source source) (pure source) s.engine.loading).1 :=
    Load.template_of_outcome hnodes (Node.compileAll_apply_of_loadsOf_eq_nil hloads _ load) rfl
      hcached
  change s.engine.registry.Settles _
    (s.engine.applyPolicy _ (Load.template _ _ _ _ s.engine.loading)).1
  generalize Load.template s.engine.registry _ _ _ s.engine.loading = out at hload
  generalize Node.compileAll s.engine.registry load nodes = outcome at hload
  obtain ⟨e | t, after⟩ := out <;> cases outcome
  · cases hload
    refine ⟨.fallback (.source source) after.nextSerial s.engine.registry e, ?_, rfl, rfl⟩
    rw [Engine.applyPolicy]
    split <;> rfl
  · exact hload.elim
  · exact hload.elim
  · exact ⟨t, rfl, hload⟩

end Stencil
