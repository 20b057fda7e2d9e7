import Mathlib.Data.List.Forall2
import Stencil.Proofs.Compile
import Stencil.Proofs.Session

/-!
# The lenient policy beside the strict one

Two engines that differ only in the policy load the same templates: what one of them holds is what
the other one holds with the policy exchanged. A session with a lenient engine therefore goes like
the one with a strict engine, except that every error but the lack of file access has become a
template or an output that shows it.
-/

namespace Stencil

/-! ### Exchanging the policy -/

/-- A set-up with another policy. -/
def Options.withPolicy (p : Policy) (o : Options) : Options := { o with policy := p }

/-- A registry with another policy. -/
def Registry.withPolicy (p : Policy) (r : Registry) : Registry := { r with policy := p }

/-- A template compiled under another policy. -/
def Template.withPolicy (p : Policy) (t : Template) : Template :=
  { t with registry := t.registry.withPolicy p }

/-- A cache filled under another policy. -/
def Cache.withPolicy (p : Policy) (c : Cache) : Cache :=
  { c with templates := c.templates.map (Template.withPolicy p) }

/-- A state of loading under another policy. -/
def Loading.withPolicy (p : Policy) (s : Loading) : Loading :=
  { s with cache := s.cache.withPolicy p }

/-- An engine with another policy. -/
def Engine.withPolicy (p : Policy) (e : Engine) : Engine :=
  { e with registry := e.registry.withPolicy p, cache := e.cache.withPolicy p }

/-- A command that sets an engine up with a policy of its own. -/
def Command.withPolicy (p : Policy) : Command → Command
  | .init workingDirectory o => .init workingDirectory (o.withPolicy p)
  | c => c

theorem Registry.alike_withPolicy (p : Policy) (r : Registry) : r.Alike (r.withPolicy p) :=
  ⟨rfl, rfl, rfl, rfl, rfl⟩

namespace Cache

variable (p : Policy) (c : Cache)

theorem find?_withPolicy (identity : Identity) :
    (c.withPolicy p).find? identity = (c.find? identity).map (Template.withPolicy p) := by
  simp only [find?, withPolicy, List.find?_map]
  rfl

theorem get_withPolicy (identity : Identity) :
    (c.withPolicy p).get identity =
      ((c.get identity).1.map (Template.withPolicy p), (c.get identity).2.withPolicy p) := by
  simp only [get, find?_withPolicy]
  cases hc : c.enabled with
  | false => simp [withPolicy, hc]
  | true => cases hf : c.find? identity <;> simp [withPolicy, hc]

theorem insert_withPolicy (t : Template) :
    (c.withPolicy p).insert (t.withPolicy p) =
      ((c.insert t).1.withPolicy p, (c.insert t).2.withPolicy p) := by
  have hid : (t.withPolicy p).identity = t.identity := rfl
  simp only [insert, find?_withPolicy, hid]
  cases hc : c.enabled with
  | false => simp [withPolicy, hc]
  | true => cases hf : c.find? t.identity <;> simp [withPolicy, hc]

end Cache

/-! ### Loading under either policy -/

/-- Loading gives related outcomes, and leaves the same states up to the policy, when the states it
begins in are the same up to the policy. -/
def policyComparison (p : Policy) : Comparison Load Load where
  rel P x y := ∀ s, SameOutcome P (x s).1 (y (s.withPolicy p)).1 ∧
    (y (s.withPolicy p)).2 = (x s).2.withPolicy p
  rel_pure h _ := ⟨h, rfl⟩
  rel_throw _ _ := ⟨rfl, rfl⟩
  rel_bind := by
    intro _ _ _ _ P Q x y f g hxy hfg s
    obtain ⟨houtcome, hstate⟩ := hxy s
    rw [Computation.bind_apply, Computation.bind_apply]
    rcases hx : x s with ⟨e | a, s'⟩ <;> rcases hy : y (s.withPolicy p) with ⟨f' | b, t'⟩ <;>
      simp only [hx, hy, SameOutcome] at houtcome hstate ⊢
    · exact ⟨houtcome, hstate⟩
    · rw [hstate]
      exact hfg a b houtcome s'
  rel_map := by
    intro _ _ _ _ P Q x y f g hxy hfg s
    obtain ⟨houtcome, hstate⟩ := hxy s
    rw [Computation.map_apply, Computation.map_apply]
    rcases hx : x s with ⟨e | a, s'⟩ <;> rcases hy : y (s.withPolicy p) with ⟨f' | b, t'⟩ <;>
      simp only [hx, hy, SameOutcome] at houtcome hstate ⊢
    · exact ⟨houtcome, hstate⟩
    · exact ⟨hfg a b houtcome, hstate⟩

namespace Load

variable (p : Policy) {r : Registry} {load other : String → Load Template}

/-- The second template is the first one, compiled under another policy. -/
private def Exchanged (t u : Template) : Prop := u = t.withPolicy p

private theorem exchange_lift {α β : Type} {P : α → β → Prop} {x : Load α} {y : Load β}
    (h : (policyComparison p).rel P x y) :
    (policyComparison p).rel (SameOutcome P) (ExceptT.lift x.run : Load _)
      (ExceptT.lift y.run) := by
  intro s
  exact h s

private theorem exchange_cached? (identity : Identity) :
    (policyComparison p).rel (fun a b ↦ b = a.map (Template.withPolicy p)) (cached? identity)
      (cached? identity) := by
  intro s
  simp [cached?, Loading.withPolicy, Cache.get_withPolicy, SameOutcome]

private theorem exchange_store {t u : Template} (h : Exchanged p t u) :
    (policyComparison p).rel (Exchanged p) (store t) (store u) := by
  intro s
  cases h
  simp [store, Loading.withPolicy, Cache.insert_withPolicy, SameOutcome, Exchanged]

private theorem exchange_enter (identity : Identity) :
    (policyComparison p).rel Eq (enter identity) (enter identity) := by
  intro s
  cases h : s.stack.enter identity <;> simp [enter, Loading.withPolicy, h, SameOutcome]

private theorem exchange_leave : (policyComparison p).rel Eq leave leave := fun _ ↦ ⟨rfl, rfl⟩

private theorem exchange_serial : (policyComparison p).rel Eq serial serial := fun _ ↦ ⟨rfl, rfl⟩

private theorem exchange_readText (fs : FileSystem) (path : Path) :
    (policyComparison p).rel Eq (readText fs path) (readText fs path) := by
  intro s
  simp only [readText, Computation.bind_apply, Computation.modify_apply, Computation.ofExcept_apply]
  cases (fs.readText path).mapError Error.file <;> exact ⟨rfl, rfl⟩

private theorem respects_exchanged (r : Registry) : Respects r Eq (Exchanged p) := by
  apply respects_eq
  rintro t _ rfl
  exact ⟨rfl, rfl, rfl⟩

private theorem exchange_build (identity : Identity) (text : String)
    (hload : ∀ identifier, (policyComparison p).rel (Exchanged p) (load identifier)
      (other identifier)) :
    (policyComparison p).rel (Exchanged p) (build r load identity text)
      (build (r.withPolicy p) other identity text) := by
  have hr := Registry.alike_withPolicy p r
  rw [build, build, hr.tagKind]
  refine (policyComparison p).rel_bind (Comparison.rel_ofExcept_self _ _) ?_
  rintro nodes _ ⟨-, rfl⟩
  refine (policyComparison p).rel_bind (Node.rel_compileAll _ (respects_exchanged p r) hr nodes
    fun _ _ identifier _ ↦ hload identifier) ?_
  intro body _ hbody
  rw [List.forall₂_eq_eq_eq] at hbody
  subst hbody
  refine (policyComparison p).rel_bind (exchange_serial p) ?_
  rintro n _ rfl
  exact (policyComparison p).rel_pure rfl

private theorem exchange_template (identity : Identity) {read : Load String}
    (hread : (policyComparison p).rel Eq read read)
    (hload : ∀ identifier, (policyComparison p).rel (Exchanged p) (load identifier)
      (other identifier)) :
    (policyComparison p).rel (Exchanged p) (template r load identity read)
      (template (r.withPolicy p) other identity read) := by
  rw [template, template]
  refine (policyComparison p).rel_bind (exchange_cached? p identity) ?_
  rintro found _ rfl
  cases found with
  | some t => exact (policyComparison p).rel_pure rfl
  | none =>
    refine (policyComparison p).rel_bind (exchange_enter p identity) ?_
    rintro _ _ -
    have hbuild : (policyComparison p).rel (Exchanged p) (read >>= build r load identity)
        (read >>= build (r.withPolicy p) other identity) := by
      refine (policyComparison p).rel_bind hread ?_
      rintro text _ rfl
      exact exchange_build p identity text hload
    refine (policyComparison p).rel_bind (exchange_lift p hbuild) ?_
    intro outcome outcome' houtcome
    refine (policyComparison p).rel_bind (exchange_leave p) ?_
    rintro _ _ -
    refine (policyComparison p).rel_bind (Comparison.rel_ofExcept _ houtcome) ?_
    intro t u htu
    exact exchange_store p htu

private theorem exchange_file (fs : FileSystem) (depth : Nat) (identifier : String) :
    (policyComparison p).rel (Exchanged p) (file r fs depth identifier)
      (file (r.withPolicy p) fs depth identifier) := by
  induction depth generalizing identifier with
  | zero => exact (policyComparison p).rel_throw _
  | succ depth ih =>
    rw [file, file]
    cases h : r.fileAccess with
    | false =>
      have h' : (r.withPolicy p).fileAccess = false := h
      simp only [h', Bool.false_eq_true, if_false]
      exact (policyComparison p).rel_throw _
    | true =>
      have h' : (r.withPolicy p).fileAccess = true := h
      simp only [h', if_true]
      refine (policyComparison p).rel_bind (Comparison.rel_ofExcept_self _ _) ?_
      rintro path _ ⟨-, rfl⟩
      exact exchange_template p (.file path) (exchange_readText p fs path) ih

end Load

/-! ### Errors shown instead of answered -/

/-- The output that shows an outcome: the text of a success, and the block of an error. -/
def softened : Except Error String → String
  | .ok text => text
  | .error e => e.block

/-- A lenient engine answers a request as a strict engine does, with errors softened. Where both
give a template, each context renders to what the strict outcome softens to. Where the strict one
fails, the lenient one gives a template that renders just the block of the error, unless files
cannot be reached: then it fails in the same way. -/
def Softens : Except Error Template → Except Error Template → Prop
  | .ok t, lenient => ∃ u, lenient = .ok u ∧ ∀ scope calls,
      u.render scope calls = (.ok (softened (t.render scope calls).1), (t.render scope calls).2)
  | .error e, lenient =>
    if e.kind = .filesUnavailable then lenient = .error e
    else ∃ u, lenient = .ok u ∧ ∀ scope calls, u.render scope calls = (.ok e.block, calls)

/-- A lenient session learns from a step what a strict one learns, with errors softened. -/
def Answer.Softens : Answer → Answer → Prop
  | .nothing, lenient => lenient = .nothing
  | .compiled strict, lenient =>
    ∃ result, lenient = .compiled result ∧ Stencil.Softens strict result
  | .rendered strict, lenient => lenient = .rendered (.ok (softened strict))
  | .missing none, lenient => lenient = .missing none
  | .missing (some e), lenient =>
    if e.kind = .filesUnavailable then lenient = .missing (some e)
    else lenient = .rendered (.ok e.block)

/-- A template of a lenient engine renders what the outcome of its strict twin softens to. -/
theorem Template.render_withPolicy_lenient (t : Template) (scope : Scope) (calls : CallLog) :
    (t.withPolicy .lenient).render scope calls =
      (.ok (softened (t.render scope calls).1), (t.render scope calls).2) := by
  have hinitial : (t.withPolicy .lenient).initialState scope calls = t.initialState scope calls :=
    rfl
  have hpolicy : (t.withPolicy .lenient).policy.isStrict = false := rfl
  have hbody : (t.withPolicy .lenient).body = t.body := rfl
  unfold render
  rw [hinitial, hpolicy, hbody]
  rcases Body.write t.body (t.initialState scope calls) with ⟨e | _, after⟩
  · cases t.policy.isStrict <;> rfl
  · rfl

/-- A fallback renders the block of its error and calls nothing. -/
theorem Template.render_fallback (identity : Identity) (serial : Nat) (r : Registry) (e : Error)
    (scope : Scope) (calls : CallLog) :
    (fallback identity serial r e).render scope calls = (.ok e.block, calls) := by
  simp [render, fallback, Body.write, Instruction.runAll, Instruction.run, Render.write,
    initialState]

namespace Engine

variable {e : Engine}

private theorem applyPolicy_lenient (hstrict : e.registry.policy = .strict) (identity : Identity)
    {x y : Load Template} (h : (policyComparison .lenient).rel (Load.Exchanged .lenient) x y) :
    Softens (e.applyPolicy identity (e.run x)).1
        ((e.withPolicy .lenient).applyPolicy identity ((e.withPolicy .lenient).run y)).1 ∧
      ((e.withPolicy .lenient).applyPolicy identity ((e.withPolicy .lenient).run y)).2 =
        (e.applyPolicy identity (e.run x)).2.withPolicy .lenient := by
  obtain ⟨houtcome, hstate⟩ := h ⟨e.cache, .empty, e.nextSerial, []⟩
  change SameOutcome _ (e.run x).1 ((e.withPolicy .lenient).run y).1 at houtcome
  change ((e.withPolicy .lenient).run y).2 = (e.run x).2.withPolicy .lenient at hstate
  rcases hx : e.run x with ⟨error | t, s⟩ <;>
    rcases hy : (e.withPolicy .lenient).run y with ⟨error' | u, s'⟩ <;>
    simp only [hx, hy, SameOutcome] at houtcome hstate
  · subst houtcome hstate
    have hlenient : (e.withPolicy .lenient).registry.policy = .lenient := rfl
    simp only [applyPolicy, hstrict, hlenient, Policy.isStrict, Bool.true_or, if_true,
      Bool.false_or, beq_iff_eq, Softens]
    split
    · exact ⟨rfl, rfl⟩
    · exact ⟨⟨_, rfl, Template.render_fallback _ _ _ error⟩, rfl⟩
  · subst houtcome hstate
    exact ⟨⟨_, rfl, t.render_withPolicy_lenient⟩, rfl⟩

private theorem answer_lenient (hstrict : e.registry.policy = .strict) (fs : FileSystem)
    (q : Request) :
    Softens (e.answer fs q).1 ((e.withPolicy .lenient).answer fs q).1 ∧
      ((e.withPolicy .lenient).answer fs q).2 = (e.answer fs q).2.withPolicy .lenient := by
  cases q with
  | text source =>
    apply applyPolicy_lenient hstrict
    apply Load.exchange_template .lenient _ ((policyComparison .lenient).rel_pure rfl)
    exact Load.exchange_file .lenient fs _
  | file identifier =>
    apply applyPolicy_lenient hstrict
    exact Load.exchange_file .lenient fs _ identifier

end Engine

/-! ### Two sessions -/

/-- A lenient session stands where a strict one stands. -/
structure Session.Softens (s t : Session) : Prop where
  strict : s.engine.registry.policy = .strict
  engine : t.engine = s.engine.withPolicy .lenient
  files : t.files = s.files
  results : List.Forall₂ Stencil.Softens s.results t.results
  calls : t.calls = s.calls

namespace Session.Softens

variable {s t : Session}

private theorem getElem?_results (h : s.Softens t) (index : Nat) :
    Option.Rel Stencil.Softens s.results[index]? t.results[index]? := by
  have hlength := h.results.length_eq
  by_cases hi : index < s.results.length
  · rw [List.getElem?_eq_getElem hi, List.getElem?_eq_getElem (hlength ▸ hi)]
    exact .some (h.results.get hi (hlength ▸ hi))
  · rw [List.getElem?_eq_none (by omega), List.getElem?_eq_none (by omega)]
    exact .none

private theorem step_render (h : s.Softens t) (index : Nat) (scope : Scope) :
    (s.step (.render index scope)).1.Softens (t.step (.render index scope)).1 ∧
      (s.step (.render index scope)).2.Softens (t.step (.render index scope)).2 := by
  have hresult := h.getElem?_results index
  simp only [step]
  generalize s.results[index]? = strict at hresult
  generalize t.results[index]? = lenient at hresult
  cases hresult with
  | none => exact ⟨rfl, h⟩
  | @some result other hsoft =>
    cases result with
    | ok template =>
      obtain ⟨u, rfl, hu⟩ := hsoft
      simp only [hu, h.calls]
      exact ⟨rfl, h.strict, h.engine, h.files, h.results, rfl⟩
    | error e =>
      simp only [Stencil.Softens] at hsoft
      simp only [Answer.Softens]
      split at hsoft
      · next hkind =>
        subst hsoft
        simp only [hkind, if_true]
        exact ⟨trivial, h⟩
      · next hkind =>
        obtain ⟨u, rfl, hu⟩ := hsoft
        simp only [hu, hkind, if_false]
        exact ⟨trivial, h.strict, h.engine, h.files, h.results, h.calls⟩

/-- A step keeps the two sessions together. -/
theorem step (h : s.Softens t) (c : Command) :
    (s.step (c.withPolicy .strict)).1.Softens (t.step (c.withPolicy .lenient)).1 ∧
      (s.step (c.withPolicy .strict)).2.Softens (t.step (c.withPolicy .lenient)).2 := by
  cases c with
  | init workingDirectory o =>
    refine ⟨rfl, rfl, ?_, h.files, h.results, h.calls⟩
    simp only [Command.withPolicy, Session.step, h.engine]
    rfl
  | request q =>
    obtain ⟨hanswer, hengine⟩ := Engine.answer_lenient h.strict s.files q
    have hregistry := s.engine.registry_answer s.files q
    simp only [Command.withPolicy, Session.step, h.engine, h.files]
    refine ⟨⟨_, rfl, hanswer⟩, ?_, hengine, rfl, ?_, h.calls⟩
    · simp only [hregistry, h.strict]
    · exact List.rel_append h.results (.cons hanswer .nil)
  | render index scope => exact h.step_render index scope
  | changeFiles fs => exact ⟨rfl, h.strict, h.engine, rfl, h.results, h.calls⟩

end Session.Softens

end Stencil
