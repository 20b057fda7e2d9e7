import Mathlib.Data.List.Induction
import Mathlib.Data.List.Pairwise
import Stencil.Proofs.Balance

/-!
# Where cached templates come from

The cache only grows until the engine is set up anew. A template in it was compiled against the
registry of the engine from the text that stood behind its identity when it was first needed, and all
that it includes is in the cache, too. A request that fails leaves nothing in the cache that was being
compiled when it failed.
-/

namespace Stencil

/-! ### What a body includes -/

namespace Instruction

mutual

/-- The templates that an instruction includes, also those in the body of a simple tag, each by its
identity, its serial number and its body. -/
def references : Instruction → List (Identity × Nat × Body)
  | .text _ => []
  | .output _ => []
  | .simple _ _ body => referencesOptional body
  | .fragment _ => []
  | .included identity serial body => [(identity, serial, body)]

/-- The templates that a body includes. -/
def referencesOf : List Instruction → List (Identity × Nat × Body)
  | [] => []
  | i :: rest => i.references ++ referencesOf rest

/-- The templates that the body of a tag includes, if it has one. -/
def referencesOptional : Option (List Instruction) → List (Identity × Nat × Body)
  | none => []
  | some body => referencesOf body

end

theorem mem_referencesOf {body : Body} {x : Identity × Nat × Body} :
    x ∈ referencesOf body ↔ ∃ i ∈ body, x ∈ i.references := by
  induction body with
  | nil => simp [referencesOf]
  | cons i rest ih => simp [referencesOf, ih]

end Instruction

/-! ### Caches that grow -/

namespace Cache

/-- No two cached templates have the same identity. -/
def Distinct (c : Cache) : Prop :=
  c.templates.Pairwise fun t u ↦ t.identity.same u.identity = false

/-- The second cache has what the first one has. -/
structure Grows (c d : Cache) : Prop where
  enabled : d.enabled = c.enabled
  templates : c.templates ⊆ d.templates

/-- The cached template with an identity, as what a loader answers. -/
def fetch (c : Cache) (identity : Identity) : Except Error Template :=
  match c.find? identity with
  | some t => .ok t
  | none => .error (.circularInclude identity.text)

/-- The cached template of the file that an identifier leads to. -/
def loader (c : Cache) (r : Registry) (fs : FileSystem) (identifier : String) :
    Except Error Template :=
  (fs.resolve identifier r.roots).bind fun path ↦ c.fetch (.file path)

/-- What an inclusion stands for is a cached template. -/
def Stores (c : Cache) (x : Identity × Nat × Body) : Prop :=
  ∃ u ∈ c.templates, x = (u.identity, u.serial, u.body)

variable {c d e : Cache} {t u : Template} {i : Identity}

theorem Grows.refl (c : Cache) : c.Grows c := ⟨rfl, List.Subset.refl _⟩

theorem Grows.trans (h : c.Grows d) (h' : d.Grows e) : c.Grows e :=
  ⟨h'.enabled.trans h.enabled, List.Subset.trans h.templates h'.templates⟩

theorem grows_get (c : Cache) (i : Identity) : c.Grows (c.get i).2 :=
  ⟨enabled_get c i, by rw [templates_get]; exact List.Subset.refl _⟩

theorem grows_insert (c : Cache) (t : Template) : c.Grows (c.insert t).2 := by
  refine ⟨enabled_insert t, ?_⟩
  unfold insert
  split
  · split
    · exact List.Subset.refl _
    · exact List.subset_cons_self t _
  · exact List.Subset.refl _

/-- Each template of a cache without doubles is found under its identity. -/
theorem Distinct.find?_of_mem (h : c.Distinct) (ht : t ∈ c.templates)
    (hsame : t.identity.same i = true) : c.find? i = some t := by
  cases hfind : c.find? i with
  | none =>
    rw [find?_eq_none.mp hfind t ht] at hsame
    cases hsame
  | some u =>
    obtain ⟨hu, hsame'⟩ := mem_of_find? hfind
    have : Std.Symm fun t u : Template ↦ t.identity.same u.identity = false :=
      ⟨fun t u h ↦ Identity.same_comm t.identity u.identity ▸ h⟩
    by_contra hne
    have hnot := h.forall ht hu fun heq ↦ hne (heq ▸ rfl)
    rw [Identity.same_comm] at hsame'
    rw [Identity.same_trans hsame hsame'] at hnot
    cases hnot

theorem Distinct.fetch_of_mem (h : c.Distinct) (ht : t ∈ c.templates)
    (hsame : t.identity.same i = true) : c.fetch i = .ok t := by
  rw [fetch, h.find?_of_mem ht hsame]

/-- Storing a template makes no double, and the stored one is cached. -/
theorem Distinct.insert (h : c.Distinct) (t : Template) : (c.insert t).2.Distinct := by
  unfold Cache.insert
  split
  · split
    · exact h
    · next hnone =>
      refine List.pairwise_cons.mpr ⟨fun u hu ↦ ?_, h⟩
      rw [Identity.same_comm]
      exact find?_eq_none.mp hnone u hu
  · exact h

end Cache

/-! ### Bodies made of cached templates -/

namespace Instruction

/-- Equal instructions, all of whose inclusions are cached. -/
def Cached (c : Cache) (i j : Instruction) : Prop := (∀ x ∈ i.references, c.Stores x) ∧ i = j

variable {c : Cache}

theorem forall₂_cached {a b : Body} (h : List.Forall₂ (Cached c) a b) :
    (∀ x ∈ referencesOf a, c.Stores x) ∧ a = b := by
  have hboth : List.Forall₂ (fun i j ↦ (∀ x ∈ i.references, c.Stores x) ∧ i = j) a b := h
  rw [List.forall₂_and_left, List.forall₂_eq_eq_eq] at hboth
  obtain ⟨hstores, heq⟩ := hboth
  refine ⟨fun x hx ↦ ?_, heq⟩
  obtain ⟨i, hi, hin⟩ := mem_referencesOf.mp hx
  exact hstores i hi x hin

theorem rel_cached {a b : Option Body} (h : Option.Rel (List.Forall₂ (Cached c)) a b) :
    (∀ x ∈ referencesOptional a, c.Stores x) ∧ a = b := by
  cases h with
  | none => exact ⟨nofun, rfl⟩
  | some hab => exact ⟨(forall₂_cached hab).1, congrArg some (forall₂_cached hab).2⟩

/-- Compiling with cached templates includes only cached templates. -/
theorem respects_cached (r : Registry) (c : Cache) :
    Respects r (Cached c) fun t u ↦ t ∈ c.templates ∧ t = u where
  text _ := ⟨nofun, rfl⟩
  output _ := ⟨nofun, rfl⟩
  simple tag arguments a b h := by
    obtain ⟨hstores, rfl⟩ := rel_cached h
    exact ⟨hstores, rfl⟩
  raw := by
    intro _ tag _ head span a b h
    obtain ⟨-, rfl⟩ := rel_cached h
    unfold RawTag.instruction
    cases tag.compile ⟨head, a, span, r.filter?, r.extension?⟩ with
    | error e => exact rfl
    | ok fragment => exact ⟨nofun, rfl⟩
  included := by
    rintro t _ ⟨ht, rfl⟩
    refine ⟨fun x hx ↦ ?_, rfl⟩
    exact ⟨t, ht, List.mem_singleton.mp hx⟩

end Instruction

/-- All that a body includes is cached if the body was compiled with templates of the cache. -/
theorem Cache.stores_of_compileAll {r : Registry} {fs : FileSystem} {c : Cache}
    {nodes : List Node} {body : Body} (h : Node.compileAll r (c.loader r fs) nodes = .ok body) :
    ∀ x ∈ Instruction.referencesOf body, c.Stores x := by
  have hload (identifier : String) : SameOutcome (fun t u ↦ t ∈ c.templates ∧ t = u)
      (c.loader r fs identifier) (c.loader r fs identifier) := by
    refine sameOutcome_self fun t ht ↦ ?_
    unfold loader at ht
    obtain ⟨path, -, hfetch⟩ := Computation.bind_eq_ok.mp ht
    unfold fetch at hfetch
    split at hfetch
    · next found hfound =>
      cases hfetch
      exact ⟨(mem_of_find? hfound).1, rfl⟩
    · cases hfetch
  have hrel := Node.rel_compileAll_of_loads outcomes (Instruction.respects_cached r c) (.refl r)
    nodes fun identifier _ ↦ hload identifier
  rw [h] at hrel
  exact (Instruction.forall₂_cached hrel).1

/-! ### Loading beside reading the cache -/

/-- A template was compiled, against a registry, from the text that stands behind its identity:
compiling this text again gives the same body when inclusions are looked up in the cache, now or when
it has grown. -/
structure Template.Made (r : Registry) (fs : FileSystem) (c : Cache) (t : Template) : Prop where
  registry : t.registry = r
  built : ∃ nodes, fs.nodesOf r t.identity = .ok nodes ∧ ∀ d, c.Grows d → d.enabled = true →
    d.Distinct → Node.compileAll r (d.loader r fs) nodes = .ok t.body

theorem Template.Made.of_grows {r : Registry} {fs : FileSystem} {c d : Cache} {t : Template}
    (h : t.Made r fs c) (hcd : c.Grows d) : t.Made r fs d := by
  obtain ⟨nodes, hnodes, hbuilt⟩ := h.built
  exact ⟨h.registry, nodes, hnodes, fun d' hd' ↦ hbuilt d' (hcd.trans hd')⟩

namespace Loading

/-- A state that loading leads to: the cache has grown by templates that were made since, and holds
no doubles; one that is not enabled holds nothing. -/
structure Follows (r : Registry) (fs : FileSystem) (s start : Loading) : Prop where
  grows : start.cache.Grows s.cache
  serial : start.nextSerial ≤ s.nextSerial
  distinct : s.cache.Distinct
  disabled : s.cache.enabled = false → s.cache.templates = []
  made : ∀ t ∈ s.cache.templates, t ∈ start.cache.templates ∨
    t.Made r fs s.cache ∧ start.nextSerial ≤ t.serial ∧ t.serial < s.nextSerial

variable {r : Registry} {fs : FileSystem} {start s after : Loading} {t : Template}

/-- What follows a state is about its cache and its next serial number. -/
theorem Follows.of_eq (h : s.Follows r fs start) (henabled : after.cache.enabled = s.cache.enabled)
    (htemplates : after.cache.templates = s.cache.templates)
    (hserial : s.nextSerial ≤ after.nextSerial) : after.Follows r fs start := by
  have hgrows : s.cache.Grows after.cache := ⟨henabled, htemplates ▸ List.Subset.refl _⟩
  refine ⟨h.grows.trans hgrows, Nat.le_trans h.serial hserial, ?_, ?_, fun t ht ↦ ?_⟩
  · unfold Cache.Distinct
    rw [htemplates]
    exact h.distinct
  · rw [henabled, htemplates]
    exact h.disabled
  · refine (h.made t (htemplates ▸ ht)).imp_right fun ⟨hmade, hfrom, hto⟩ ↦ ?_
    exact ⟨hmade.of_grows hgrows, hfrom, Nat.lt_of_lt_of_le hto hserial⟩

/-- A template that was just made can be stored. -/
theorem Follows.insert (h : s.Follows r fs start) (hmade : t.Made r fs s.cache)
    (hfrom : start.nextSerial ≤ t.serial) (hto : t.serial < s.nextSerial) :
    Follows r fs { s with cache := (s.cache.insert t).2 } start := by
  have hgrows := s.cache.grows_insert t
  refine ⟨h.grows.trans hgrows, h.serial, h.distinct.insert t,
    Cache.templates_insert_eq_nil h.disabled t, fun u hu ↦ ?_⟩
  rcases Cache.mem_of_mem_insert hu with rfl | hold
  · exact .inr ⟨hmade.of_grows hgrows, hfrom, hto⟩
  · refine (h.made u hold).imp_right fun ⟨hmade', hfrom', hto'⟩ ↦ ?_
    exact ⟨hmade'.of_grows hgrows, hfrom', hto'⟩

end Loading

section Comparing

variable (r : Registry) (fs : FileSystem) (start : Loading)

/-- Loading keeps to what follows a state, and its result is what comes out when inclusions are looked
up in a cache, if this has grown from the cache at the end. -/
def fetching (c : Cache) : Comparison Load (Except Error) where
  rel P x y := ∀ s : Loading, s.Follows r fs start → (x s).2.Follows r fs start ∧
    s.cache.Grows (x s).2.cache ∧
    ∀ a, (x s).1 = .ok a → ∃ b, P a b ∧ ((x s).2.cache.Grows c → y = .ok b)
  rel_pure {_ _ _ a b} h s hs := by
    refine ⟨hs, .refl _, fun a' ha ↦ ⟨b, ?_, fun _ ↦ rfl⟩⟩
    cases ha
    exact h
  rel_throw _ _ hs := ⟨hs, .refl _, nofun⟩
  rel_bind := by
    intro _ _ _ _ P Q x y f g hxy hfg s hs
    obtain ⟨hfollows, hgrows, hout⟩ := hxy s hs
    rw [Computation.bind_apply]
    generalize x s = out at *
    rcases out with ⟨e | a, middle⟩
    · exact ⟨hfollows, hgrows, nofun⟩
    · obtain ⟨b, hab, hy⟩ := hout a rfl
      obtain ⟨hfollows', hgrows', hout'⟩ := hfg a b hab middle hfollows
      refine ⟨hfollows', hgrows.trans hgrows', fun d hd ↦ ?_⟩
      obtain ⟨d', hdd', hg⟩ := hout' d hd
      refine ⟨d', hdd', fun hc ↦ ?_⟩
      rw [hy (hgrows'.trans hc)]
      exact hg hc
  rel_map := by
    intro _ _ _ _ P Q x y f g hxy hfg s hs
    obtain ⟨hfollows, hgrows, hout⟩ := hxy s hs
    rw [Computation.map_apply]
    generalize x s = out at *
    rcases out with ⟨e | a, after⟩
    · exact ⟨hfollows, hgrows, nofun⟩
    · obtain ⟨b, hab, hy⟩ := hout a rfl
      refine ⟨hfollows, hgrows, fun d hd ↦ ⟨g b, ?_, fun hc ↦ ?_⟩⟩
      · cases hd
        exact hfg a b hab
      · rw [hy hc]
        rfl

end Comparing

namespace Load

variable {r : Registry} {fs : FileSystem} {start : Loading} {identity : Identity}
  {load : String → Load Template} {read : Load String}

/-- What a built template is: made from the text behind its identity, with a fresh serial number. -/
private theorem follows_build
    (hload : ∀ c : Cache, c.enabled = true → c.Distinct → ∀ identifier,
      (fetching r fs start c).rel Eq (load identifier) (c.loader r fs identifier))
    {text : String} (htext : fs.textOf identity = .ok text) {s : Loading}
    (hs : s.Follows r fs start) :
    (build r load identity text s).2.Follows r fs start ∧
      s.cache.Grows (build r load identity text s).2.cache ∧
      ∀ t, (build r load identity text s).1 = .ok t → t.identity = identity ∧
        t.Made r fs (build r load identity text s).2.cache ∧
        start.nextSerial ≤ t.serial ∧ t.serial < (build r load identity text s).2.nextSerial := by
  unfold build
  rw [Computation.bind_apply, Computation.ofExcept_apply]
  cases hparse : Node.parse r.tagKind? text with
  | error e => exact ⟨hs, .refl _, nofun⟩
  | ok nodes =>
    have hnodes := FileSystem.nodesOf_eq_ok.mpr ⟨text, htext, hparse⟩
    have hbody (c : Cache) (henabled : c.enabled = true) (hdistinct : c.Distinct) :=
      Node.rel_compileAll_of_loads (fetching r fs start c) (respects_self r) (.refl r) nodes
        (fun identifier _ ↦ hload c henabled hdistinct identifier) s hs
    dsimp only
    rw [Computation.bind_apply]
    generalize Node.compileAll r load nodes s = out at *
    obtain ⟨hfollows, hgrows, -⟩ := hbody (.empty true) rfl .nil
    rcases out with ⟨e | body, after⟩
    · exact ⟨hfollows, hgrows, nofun⟩
    · dsimp only
      refine ⟨hfollows.of_eq rfl rfl (Nat.le_succ _), hgrows, ?_⟩
      rintro t ⟨⟩
      refine ⟨rfl, ⟨rfl, nodes, hnodes, fun d hd henabled hdistinct ↦ ?_⟩, hfollows.serial,
        Nat.lt_succ_self _⟩
      obtain ⟨other, heq, hcompile⟩ := (hbody d henabled hdistinct).2.2 body rfl
      rw [List.forall₂_eq_eq_eq] at heq
      subst heq
      exact hcompile hd

/-- What is loaded for an identity is the template that is found under it afterwards. -/
private theorem fetching_template
    (hload : ∀ c : Cache, c.enabled = true → c.Distinct → ∀ identifier,
      (fetching r fs start c).rel Eq (load identifier) (c.loader r fs identifier))
    (hread : ∀ s, ∃ events, read s = (fs.textOf identity, { s with events }))
    {c : Cache} (henabled : c.enabled = true) (hdistinct : c.Distinct) :
    (fetching r fs start c).rel Eq (template r load identity read) (c.fetch identity) := by
  intro s hs
  have hget := s.cache.grows_get identity
  have htemplates := s.cache.templates_get identity
  rw [template_apply]
  rcases Cache.get_cases s.cache identity with
    ⟨t, found, hfound, -, ht, hsame⟩ | ⟨missed, hmissed, -⟩
  · rw [hfound] at hget htemplates ⊢
    refine ⟨hs.of_eq hget.enabled htemplates (Nat.le_refl _), hget, ?_⟩
    rintro _ ⟨⟩
    refine ⟨t, rfl, fun hc ↦ hdistinct.fetch_of_mem (hc.templates ?_) hsame⟩
    exact htemplates ▸ ht
  · rw [hmissed] at hget htemplates ⊢
    have hkept (stack : IncludeStack) (events : List LoadEvent) :
        Loading.Follows r fs ⟨missed, stack, s.nextSerial, events⟩ start :=
      hs.of_eq hget.enabled htemplates (Nat.le_refl _)
    dsimp only
    rcases s.stack.enter identity with e | inner <;> dsimp only
    · exact ⟨hkept _ _, hget, nofun⟩
    · obtain ⟨events, hevents⟩ := hread ⟨missed, inner, s.nextSerial, .entered inner :: s.events⟩
      rw [Computation.bind_apply, hevents]
      cases htext : fs.textOf identity with
      | error e => exact ⟨hkept _ _, hget, nofun⟩
      | ok text =>
        obtain ⟨hfollows, hgrows, hbuilt⟩ := follows_build hload htext (hkept inner events)
        dsimp only
        generalize build r load identity text _ = out at *
        rcases out with ⟨e | t, after⟩
        · exact ⟨hfollows.of_eq rfl rfl (Nat.le_refl _), hget.trans hgrows, nofun⟩
        · obtain ⟨hidentity, hmade, hfrom, hto⟩ := hbuilt t rfl
          have hinsert := after.cache.grows_insert t
          refine ⟨(hfollows.insert hmade hfrom hto).of_eq rfl rfl (Nat.le_refl _),
            (hget.trans hgrows).trans hinsert, ?_⟩
          rintro _ ⟨⟩
          refine ⟨_, rfl, fun hc ↦ ?_⟩
          have hyes : after.cache.enabled = true :=
            ((hinsert.trans hc).enabled.symm).trans henabled
          obtain ⟨hmem, hsame⟩ := Cache.mem_insert hyes t
          exact hdistinct.fetch_of_mem (hc.templates hmem) (hidentity ▸ hsame)

/-- A failure tells nothing about what comes out otherwise. -/
private theorem fetching_throw {α β : Type} {P : α → β → Prop} {c : Cache} (e : Error)
    (y : Except Error β) : (fetching r fs start c).rel P (throw e) y :=
  fun _ hs ↦ ⟨hs, .refl _, nofun⟩

theorem fetching_file (depth : Nat) (c : Cache) (henabled : c.enabled = true)
    (hdistinct : c.Distinct) (identifier : String) :
    (fetching r fs start c).rel Eq (file r fs depth identifier) (c.loader r fs identifier) := by
  induction depth generalizing identifier c with
  | zero => exact fetching_throw _ _
  | succ depth ih =>
    rw [file, Cache.loader]
    split
    · cases fs.resolve identifier r.roots with
      | error e => exact fetching_throw e _
      | ok path =>
        exact fetching_template ih (fun s ↦ ⟨_, readText_apply fs path s⟩) henabled hdistinct
    · exact fetching_throw _ _

/-- What follows a state that a request is answered from. -/
theorem follows_request (q : Request) {s : Loading} (hs : s.Follows r fs start) :
    (request r (file r fs (fs.size + 2)) q s).2.Follows r fs start := by
  have hempty : (Cache.empty true).Distinct := .nil
  cases q with
  | text source =>
    exact (fetching_template (fetching_file (fs.size + 2)) (fun s ↦ ⟨s.events, rfl⟩) rfl hempty s
      hs).1
  | file identifier => exact (fetching_file (fs.size + 2) _ rfl hempty identifier s hs).1

end Load

end Stencil
