import Stencil.Proofs.Balance

/-!
# Where loading fails

A failure is answered after the include stack has been put back. Here a failure also tells the stack
on which it happened; otherwise loading is the same. Nothing on that stack is in the cache: a template
is stored only after it has left the stack.
-/

namespace Stencil

/-- A step of loading whose failure tells the include stack on which it happened. -/
abbrev Located (α : Type) := ExceptT (Error × IncludeStack) (StateM Loading) α

namespace Located

/-- A failure happens on the stack of the state. -/
instance : MonadExcept Error Located where
  throw e := fun s ↦ (.error (e, s.stack), s)
  tryCatch x handle := fun s ↦
    match x s with
    | (.error (e, _), after) => handle e after
    | (.ok a, after) => (.ok a, after)

/-- A step that fails on the stack that it leaves. -/
def of {α : Type} (x : Load α) : Located α := fun s ↦
  match x s with
  | (.ok a, after) => (.ok a, after)
  | (.error e, after) => (.error (e, after.stack), after)

section Definitions

variable (r : Registry) (fs : FileSystem)

/-- Compile the text that `read` gives. -/
def build (load : String → Located Template) (identity : Identity) (read : Load String) :
    Located Template := do
  let text ← of read
  let nodes ← ofExcept (Node.parse r.tagKind? text)
  let body ← Node.compileAll r load nodes
  return ⟨identity, ← of Load.serial, r, body⟩

/-- The template with an identity: the stored one, or the one compiled from the text that `read`
gives, which is then stored. -/
def template (load : String → Located Template) (identity : Identity) (read : Load String) :
    Located Template := fun s ↦
  match s.cache.get identity with
  | (some t, cache) => (.ok t, { s with cache })
  | (none, cache) =>
    match s.stack.enter identity with
    | .error e => (.error (e, s.stack), { s with cache })
    | .ok stack =>
      match build r load identity read
        { s with cache, stack, events := .entered stack :: s.events } with
      | (.error failure, after) => (.error failure, { after with stack := after.stack.leave })
      | (.ok t, after) => (.ok (after.cache.insert t).1,
        { after with stack := after.stack.leave, cache := (after.cache.insert t).2 })

/-- The template in the file of an identifier, with a bound on how deep inclusions may nest. -/
def file : Nat → String → Located Template
  | 0, identifier => throw (Error.circularInclude identifier)
  | depth + 1, identifier =>
    if r.fileAccess then do
      let path ← ofExcept (fs.resolve identifier r.roots)
      template r (file depth) (.file path) (Load.readText fs path)
    else throw Error.filesUnavailable

/-- What is asked for. -/
def request : Request → Located Template
  | .text source => template r (file r fs (fs.size + 2)) (.source source) (pure source)
  | .file identifier => file r fs (fs.size + 2) identifier

end Definitions

/-! ### Locating failures changes nothing else -/

/-- A cache that holds nothing unless it is enabled, and no template that is being compiled. -/
structure Clear (c : Cache) (stack : IncludeStack) : Prop where
  apart : c.Apart stack
  disabled : c.enabled = false → c.templates = []

/-- How a run ends whose failure is located, beside one whose failure is not: on the stack of the
start, with related results or one failure, which happened on or above that stack; the cache is clear
of the stack where that was. -/
inductive Ends {α β : Type} (stack : IncludeStack) (P : α → β → Prop) :
    Except (Error × IncludeStack) α × Loading → Except Error β × Loading → Prop
  | done {a : α} {b : β} {s : Loading} : P a b → s.stack = stack → Clear s.cache stack →
      Ends stack P (.ok a, s) (.ok b, s)
  | failed {e : Error} {place : IncludeStack} {s : Loading} :
      (∃ above, place.identities = above ++ stack.identities) → s.stack = stack →
      Clear s.cache place → Ends stack P (.error (e, place), s) (.error e, s)

/-- From a clear state, loading ends as it does without locating failures. -/
def comparison (stack : IncludeStack) : Comparison Located Load where
  rel P x y := ∀ s, s.stack = stack → Clear s.cache stack → Ends stack P (x s) (y s)
  rel_pure h _ hs hclear := .done h hs hclear
  rel_throw e s hs hclear := by
    subst hs
    exact .failed ⟨[], rfl⟩ rfl hclear
  rel_bind := by
    intro _ _ _ _ P Q x y f g hxy hfg s hs hclear
    have hends := hxy s hs hclear
    rw [Computation.bind_apply, Computation.bind_apply]
    generalize x s = out, y s = out' at *
    cases hends with
    | done hab hstack hclear' => exact hfg _ _ hab _ hstack hclear'
    | failed hplace hstack hclear' => exact .failed hplace hstack hclear'
  rel_map := by
    intro _ _ _ _ P Q x y f g hxy hfg s hs hclear
    have hends := hxy s hs hclear
    rw [Computation.map_apply, Computation.map_apply]
    generalize x s = out, y s = out' at *
    cases hends with
    | done hab hstack hclear' => exact .done (hfg _ _ hab) hstack hclear'
    | failed hplace hstack hclear' => exact .failed hplace hstack hclear'

variable {r : Registry} {fs : FileSystem} {stack : IncludeStack} {identity : Identity}
  {load : String → Located Template} {other : String → Load Template}

/-- A step that changes neither the stack nor the cache is the same with and without its place. -/
theorem rel_of {α : Type} {x : Load α} (hstack : ∀ s, (x s).2.stack = s.stack)
    (hcache : ∀ s, (x s).2.cache = s.cache) : (comparison stack).rel Eq (of x) x := by
  intro s hs hclear
  have hstack' := hstack s
  have hcache' := hcache s
  unfold of
  generalize x s = out at *
  subst hs
  rw [← hcache', ← hstack'] at hclear
  rcases out with ⟨e | a, after⟩
  · exact .failed ⟨[], congrArg _ hstack'⟩ hstack' hclear
  · exact .done rfl hstack' (hstack' ▸ hclear)

/-- A text is compiled as it is without locating failures. -/
theorem rel_build {read : Load String} (hstack : ∀ s, (read s).2.stack = s.stack)
    (hcache : ∀ s, (read s).2.cache = s.cache)
    (hload : ∀ text nodes, Node.parse r.tagKind? text = .ok nodes →
      ∀ identifier ∈ Node.loadsOf r nodes,
        (comparison stack).rel Eq (load identifier) (other identifier)) :
    (comparison stack).rel (fun t u ↦ t = u ∧ t.identity = identity)
      (build r load identity read) (read >>= Load.build r other identity) := by
  refine (comparison stack).rel_bind (rel_of hstack hcache) ?_
  rintro text _ rfl
  refine (comparison stack).rel_bind (Comparison.rel_ofExcept_self _ _) ?_
  rintro nodes _ ⟨hnodes, rfl⟩
  refine (comparison stack).rel_bind
    (Node.rel_compileAll_of_loads _ (respects_self r) (.refl r) nodes (hload text nodes hnodes)) ?_
  intro body _ hbody
  rw [List.forall₂_eq_eq_eq] at hbody
  subst hbody
  refine (comparison stack).rel_bind (rel_of (fun _ ↦ rfl) fun _ ↦ rfl) ?_
  rintro serial _ rfl
  exact (comparison stack).rel_pure ⟨rfl, rfl⟩

/-- A lookup leaves a cache clear. -/
theorem Clear.get {c cache : Cache} {found : Option Template} (h : Clear c stack)
    (hget : c.get identity = (found, cache)) : Clear cache stack := by
  have htemplates := Cache.templates_get c identity
  have henabled := Cache.enabled_get c identity
  rw [hget] at htemplates henabled
  refine ⟨fun t ht ↦ h.apart t (htemplates ▸ ht), fun hno ↦ ?_⟩
  rw [htemplates]
  exact h.disabled (henabled ▸ hno)

/-- A template that is not cached can be entered: the cache is clear of its identity, too. -/
theorem Clear.enter {c cache : Cache} {inner : IncludeStack} (h : Clear c stack)
    (hget : c.get identity = (none, cache)) (hinner : stack.enter identity = .ok inner) :
    Clear cache inner := by
  obtain ⟨-, rfl⟩ := IncludeStack.enter_eq_ok.mp hinner
  have hkept := h.get hget
  have htemplates := Cache.templates_get c identity
  rw [hget] at htemplates
  refine ⟨fun t ht ↦ ?_, hkept.disabled⟩
  rcases Cache.get_cases c identity with ⟨_, _, hfound, -⟩ | ⟨_, -, hmiss⟩
  · rw [hget] at hfound
    cases hfound
  · have hmem : t ∈ c.templates := htemplates ▸ ht
    rw [IncludeStack.contains_cons, Identity.same_comm,
      hmiss (Cache.enabled_of_mem h.disabled hmem) t hmem]
    exact hkept.apart t ht

/-- A template that was compiled can be stored: it has left the stack. -/
theorem Clear.leave {c : Cache} {t : Template} {inner : IncludeStack} (h : Clear c inner)
    (hinner : stack.enter t.identity = .ok inner) : Clear (c.insert t).2 stack := by
  obtain ⟨hfresh, rfl⟩ := IncludeStack.enter_eq_ok.mp hinner
  refine ⟨fun u hu ↦ ?_, Cache.templates_insert_eq_nil h.disabled t⟩
  rcases Cache.mem_of_mem_insert hu with rfl | hold
  · exact hfresh
  · have hin := h.apart u hold
    rw [IncludeStack.contains_cons, Bool.or_eq_false_iff] at hin
    exact hin.2

/-- A template is loaded as it is without locating failures; if it can be entered, then a failure
happens on a stack that holds it. -/
theorem ends_template {read : Load String} (hstack : ∀ s, (read s).2.stack = s.stack)
    (hcache : ∀ s, (read s).2.cache = s.cache)
    (hload : ∀ inner text nodes, stack.enter identity = .ok inner →
      Node.parse r.tagKind? text = .ok nodes → ∀ identifier ∈ Node.loadsOf r nodes,
        (comparison inner).rel Eq (load identifier) (other identifier))
    {s : Loading} (hs : s.stack = stack) (hclear : Clear s.cache stack) :
    Ends stack Eq (template r load identity read s) (Load.template r other identity read s) ∧
      ∀ e place after, template r load identity read s = (.error (e, place), after) →
        stack.contains identity = true ∨ place.contains identity = true := by
  subst hs
  unfold template
  rw [Load.template_apply]
  rcases hget : s.cache.get identity with ⟨_ | t, cache⟩ <;> dsimp only
  · rcases henter : s.stack.enter identity with e | inner <;> dsimp only
    · refine ⟨.failed ⟨[], rfl⟩ rfl (hclear.get hget), fun _ _ _ _ ↦ .inl ?_⟩
      exact (IncludeStack.enter_eq_error henter).1
    · have hbuild : (comparison inner).rel (fun t u ↦ t = u ∧ t.identity = identity)
          (build r load identity read) (read >>= Load.build r other identity) :=
        rel_build hstack hcache (hload inner · · henter ·)
      have hends := hbuild { s with cache, stack := inner, events := .entered inner :: s.events }
        rfl (hclear.enter hget henter)
      generalize build r load identity read _ = out,
        (read >>= Load.build r other identity) _ = out' at *
      have hleave := IncludeStack.leave_of_enter henter
      obtain ⟨-, rfl⟩ := IncludeStack.enter_eq_ok.mp henter
      cases hends with
      | failed hplace hstack' hclear' =>
        obtain ⟨above, habove⟩ := hplace
        refine ⟨.failed ⟨above ++ [identity], ?_⟩ ?_ hclear', ?_⟩
        · rw [habove, List.append_assoc]
          rfl
        · exact (congrArg IncludeStack.leave hstack').trans hleave
        · rintro _ _ _ ⟨⟩
          refine .inr (List.any_eq_true.mpr ⟨identity, ?_, Identity.same_self identity⟩)
          rw [habove]
          exact List.mem_append_right _ List.mem_cons_self
      | done hbuilt hstack' hclear' =>
        obtain ⟨rfl, rfl⟩ := hbuilt
        refine ⟨.done rfl ?_ (hclear'.leave henter), nofun⟩
        exact (congrArg IncludeStack.leave hstack').trans hleave
  · exact ⟨.done rfl rfl (hclear.get hget), nofun⟩

private theorem ends_readText {path : Path}
    (hload : ∀ inner identifier, (comparison inner).rel Eq (load identifier) (other identifier))
    {s : Loading} (hs : s.stack = stack) (hclear : Clear s.cache stack) :
    Ends stack Eq (template r load (.file path) (Load.readText fs path) s)
        (Load.template r other (.file path) (Load.readText fs path) s) ∧
      ∀ e place after, template r load (.file path) (Load.readText fs path) s =
        (.error (e, place), after) →
          stack.contains (.file path) = true ∨ place.contains (.file path) = true := by
  refine ends_template (fun s ↦ ?_) (fun s ↦ ?_) (fun inner _ _ _ _ identifier _ ↦
    hload inner identifier) hs hclear <;> simp [Load.readText]

/-- A file is loaded as it is without locating failures. -/
theorem rel_file (depth : Nat) (stack : IncludeStack) (identifier : String) :
    (comparison stack).rel Eq (file r fs depth identifier) (Load.file r fs depth identifier) := by
  induction depth generalizing identifier stack with
  | zero => exact (comparison stack).rel_throw _
  | succ depth ih =>
    rw [file, Load.file]
    split
    · refine (comparison stack).rel_bind (Comparison.rel_ofExcept_self _ _) ?_
      rintro path _ ⟨-, rfl⟩ s hs hclear
      exact (ends_readText ih hs hclear).1
    · exact (comparison stack).rel_throw _

/-- A request is answered as it is without locating failures. A failure of the template that the
request begins to compile happens on a stack that holds it. -/
theorem ends_request (q : Request) {s : Loading} (hs : s.stack = .empty)
    (hclear : Clear s.cache .empty) :
    Ends .empty Eq (request r fs q s) (Load.request r (Load.file r fs (fs.size + 2)) q s) ∧
      ∀ e place after, request r fs q s = (.error (e, place), after) →
        ∀ i, q.Begins r fs i → place.contains i = true := by
  have hnone (i : Identity) : ¬IncludeStack.empty.contains i = true := nofun
  cases q with
  | text source =>
    have hread (s : Loading) : ((pure source : Load String) s).2 = s := rfl
    obtain ⟨hends, hplace⟩ := ends_template (r := r) (fun s ↦ congrArg _ (hread s))
      (fun s ↦ congrArg _ (hread s)) (fun inner _ _ _ _ other _ ↦ rel_file (fs.size + 2) inner other)
      hs hclear
    refine ⟨hends, ?_⟩
    rintro e place after hfailed _ rfl
    exact (hplace e place after hfailed).resolve_left (hnone _)
  | file identifier =>
    refine ⟨rel_file (fs.size + 2) .empty identifier s hs hclear, ?_⟩
    rintro e place after hfailed _ ⟨haccess, path, hpath, rfl⟩
    have hfile : file r fs (fs.size + 1 + 1) identifier s =
        template r (file r fs (fs.size + 1)) (.file path) (Load.readText fs path) s := by
      rw [file, if_pos haccess, hpath]
      rfl
    have hplace := (ends_readText (rel_file (fs.size + 1)) hs hclear).2 e place after
      (hfile.symm.trans hfailed)
    exact hplace.resolve_left (hnone _)

end Located

end Stencil
