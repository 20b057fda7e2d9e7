import Stencil.Proofs.Computation

/-!
# Loading a template, seen from outside

A cached template is answered at once. Any other one is compiled below its own identity, and is
stored if that succeeds; the include stack is put back in both cases.
-/

namespace Stencil

/-- None of the cached templates is being compiled. -/
def Cache.Apart (c : Cache) (stack : IncludeStack) : Prop :=
  ∀ t ∈ c.templates, stack.contains t.identity = false

namespace Cache

variable (c : Cache) (identity : Identity)

variable {c identity} in
theorem mem_of_find? {t : Template} (h : c.find? identity = some t) :
    t ∈ c.templates ∧ t.identity.same identity = true :=
  ⟨List.mem_of_find?_eq_some h,
    List.find?_some (p := fun t : Template ↦ t.identity.same identity) h⟩

variable {c identity} in
theorem find?_eq_none :
    c.find? identity = none ↔ ∀ t ∈ c.templates, t.identity.same identity = false := by
  simp [find?, List.find?_eq_none]

/-- Which template is stored does not depend on how a path is spelled. -/
theorem find?_congr {i j : Identity} (h : i.same j = true) : c.find? i = c.find? j := by
  unfold find?
  congr 1
  funext t
  rw [Bool.eq_iff_iff]
  constructor
  · intro hi
    exact Identity.same_trans hi h
  · intro hj
    exact Identity.same_trans hj (Identity.same_comm i j ▸ h)

/-- A lookup finds a stored template of an enabled cache, or there is none. -/
theorem get_cases :
    (∃ t found, c.get identity = (some t, found) ∧ c.enabled = true ∧ t ∈ c.templates ∧
      t.identity.same identity = true) ∨
    (∃ missed, c.get identity = (none, missed) ∧
      (c.enabled = true → ∀ t ∈ c.templates, t.identity.same identity = false)) := by
  unfold get
  cases henabled : c.enabled with
  | false => exact .inr ⟨c, rfl, fun h ↦ nomatch h⟩
  | true =>
    cases hfind : c.find? identity with
    | some t => exact .inl ⟨t, _, rfl, rfl, mem_of_find? hfind⟩
    | none => exact .inr ⟨_, rfl, fun _ ↦ find?_eq_none.mp hfind⟩

theorem enabled_get : (c.get identity).2.enabled = c.enabled := by
  unfold get
  split
  · split <;> rfl
  · rfl

variable {c}

variable {identity} in
/-- A lookup in an enabled cache that finds a template is a hit. -/
theorem get_of_find?_eq_some {t : Template} (henabled : c.enabled = true)
    (h : c.find? identity = some t) : c.get identity = (some t, { c with hits := c.hits + 1 }) := by
  rw [get, if_pos henabled, h]

variable {identity} in
/-- A lookup in an enabled cache that finds nothing is a miss. -/
theorem get_of_find?_eq_none (henabled : c.enabled = true) (h : c.find? identity = none) :
    c.get identity = (none, { c with misses := c.misses + 1 }) := by
  rw [get, if_pos henabled, h]

/-- A template under whose identity one is stored is not stored. -/
theorem insert_of_find?_eq_some {t stored : Template} (henabled : c.enabled = true)
    (h : c.find? t.identity = some stored) : c.insert t = (stored, c) := by
  rw [insert, if_pos henabled, h]

/-- A template that is not there yet is stored as the newest one. -/
theorem insert_of_enabled {t : Template} (henabled : c.enabled = true)
    (h : ∀ u ∈ c.templates, u.identity.same t.identity = false) :
    c.insert t = (t, { c with templates := t :: c.templates }) := by
  have hnone : c.find? t.identity = none := by
    apply List.find?_eq_none.mpr
    intro u hu
    simp [h u hu]
  rw [insert, henabled, hnone]
  rfl

/-- A cache that is not enabled takes no template. -/
theorem insert_of_not_enabled {t : Template} (h : c.enabled = false) : c.insert t = (t, c) := by
  rw [insert, h]
  rfl

theorem enabled_insert (t : Template) : (c.insert t).2.enabled = c.enabled := by
  unfold insert
  split
  · split <;> rfl
  · rfl

/-- If a cache that is not enabled holds nothing, then one that holds something is enabled. -/
theorem enabled_of_mem (h : c.enabled = false → c.templates = []) {t : Template}
    (ht : t ∈ c.templates) : c.enabled = true := by
  cases henabled : c.enabled with
  | true => rfl
  | false =>
    rw [h henabled] at ht
    cases ht

/-- A cache that is not enabled still holds nothing when a template is to be stored. -/
theorem templates_insert_eq_nil (h : c.enabled = false → c.templates = []) (t : Template)
    (hno : (c.insert t).2.enabled = false) : (c.insert t).2.templates = [] := by
  rw [enabled_insert] at hno
  rw [insert_of_not_enabled hno]
  exact h hno

/-- What storing answers is stored under the identity. -/
theorem mem_insert (henabled : c.enabled = true) (t : Template) :
    (c.insert t).1 ∈ (c.insert t).2.templates ∧
      (c.insert t).1.identity.same t.identity = true := by
  unfold Cache.insert
  rw [if_pos henabled]
  split
  · next stored hstored => exact mem_of_find? hstored
  · exact ⟨List.mem_cons_self, Identity.same_self _⟩

/-- Storing a template brings in no other one. -/
theorem mem_of_mem_insert {t u : Template} (h : u ∈ (c.insert t).2.templates) :
    u = t ∨ u ∈ c.templates := by
  unfold insert at h
  split at h
  · split at h
    · exact .inr h
    · exact List.mem_cons.mp h
  · exact .inr h

end Cache

namespace Load

/-- What loading a template does to a state. -/
theorem template_apply (r : Registry) (load : String → Load Template) (identity : Identity)
    (read : Load String) (s : Loading) :
    template r load identity read s =
      match s.cache.get identity with
      | (some t, cache) => (.ok t, { s with cache })
      | (none, cache) =>
        match s.stack.enter identity with
        | .error e => (.error e, { s with cache })
        | .ok stack =>
          match (read >>= build r load identity)
            { s with cache, stack, events := .entered stack :: s.events } with
          | (.error e, after) => (.error e, { after with stack := after.stack.leave })
          | (.ok t, after) => ((.ok (after.cache.insert t).1 : Except Error Template),
            { after with stack := after.stack.leave, cache := (after.cache.insert t).2 }) := by
  unfold template cached? enter leave store
  generalize read >>= build r load identity = inner
  rcases hget : s.cache.get identity with ⟨_ | t, cache⟩
  · rcases henter : s.stack.enter identity with e | stack
    · simp [hget, henter]
    · rcases hinner : inner { s with cache, stack, events := .entered stack :: s.events } with
        ⟨e | t, after⟩ <;> simp [hget, henter, hinner]
  · simp [hget]

/-- A template fails if it is being compiled already, or if it fails to be built on the stack that it
makes. -/
theorem error_of_template {r : Registry} {load : String → Load Template} {identity : Identity}
    {read : Load String} {s : Loading} {e : Error}
    (h : (template r load identity read s).1 = .error e) :
    s.stack.enter identity = .error e ∨ ∃ start : Loading,
      s.stack.enter identity = .ok start.stack ∧
        ((read >>= build r load identity) start).1 = .error e := by
  rw [template_apply] at h
  rcases hget : s.cache.get identity with ⟨_ | t, cache⟩ <;> rw [hget] at h
  · rcases henter : s.stack.enter identity with e' | stack <;> rw [henter] at h
    · cases h
      exact .inl rfl
    · refine .inr ⟨{ s with cache, stack, events := .entered stack :: s.events }, rfl, ?_⟩
      dsimp only at h
      split at h
      · next hbuild =>
        rw [hbuild]
        exact h
      · cases h
  · cases h

/-- A template is built for its identity and against the registry. -/
theorem identity_registry_of_build {r : Registry} {load : String → Load Template} {identity : Identity}
    {read : Load String} {s after : Loading} {t : Template}
    (h : (read >>= build r load identity) s = (.ok t, after)) :
    t.identity = identity ∧ t.registry = r := by
  rw [Computation.bind_apply] at h
  split at h
  · unfold build at h
    rw [Computation.bind_apply] at h
    split at h
    · rw [Computation.bind_apply] at h
      split at h
      · cases h
        exact ⟨rfl, rfl⟩
      · cases h
    · cases h
  · cases h

/-- A loaded template is in the cache, or it was just built against the registry. -/
theorem mem_or_registry_of_template {r : Registry} {load : String → Load Template}
    {identity : Identity} {read : Load String} {s after : Loading} {t : Template}
    (h : template r load identity read s = (.ok t, after)) :
    t ∈ after.cache.templates ∨ t.registry = r := by
  have htemplates := s.cache.templates_get identity
  rw [template_apply] at h
  rcases Cache.get_cases s.cache identity with ⟨u, found, hfound, -, hu, -⟩ | ⟨missed, hmissed, -⟩
  · rw [hfound] at h htemplates
    cases h
    exact .inl (htemplates ▸ hu)
  · rw [hmissed] at h
    dsimp only at h
    split at h
    · cases h
    · split at h
      · cases h
      · next u last hbuild =>
        cases h
        have hregistry := (identity_registry_of_build hbuild).2
        cases henabled : last.cache.enabled with
        | true => exact .inl (Cache.mem_insert henabled u).1
        | false =>
          rw [Cache.insert_of_not_enabled henabled]
          exact .inr hregistry

end Load

end Stencil
