import Mathlib.Logic.Function.Iterate
import Stencil.Proofs.Inclusion
import Stencil.Proofs.Loading

/-!
# Compiling ends and puts the include stack back

The file of an identifier is loaded by loading the files that it includes. Nothing about a call gets
smaller from one to the next: what bounds the recursion is that every call enters another file.
-/

namespace Stencil

open Relation

/-! ### Running alike -/

/-- How two runs from one state end alike: the first failure is excused, both fail alike in one
state, or both have related results in one state. -/
inductive EndsAlike {α β : Type} (excused : Error → Prop) (P : α → β → Prop) :
    Except Error α × Loading → Except Error β × Loading → Prop
  | excuse {e : Error} {s : Loading} {out : Except Error β × Loading} :
    excused e → EndsAlike excused P (.error e, s) out
  | failed (e : Error) (s : Loading) : EndsAlike excused P (.error e, s) (.error e, s)
  | done {a : α} {b : β} (s : Loading) : P a b → EndsAlike excused P (.ok a, s) (.ok b, s)

theorem EndsAlike.eq {α : Type} {out out' : Except Error α × Loading}
    (h : EndsAlike (fun _ ↦ False) Eq out out') : out = out' := by
  cases h with
  | excuse he => exact he.elim
  | failed e s => rfl
  | done s hab => rw [hab]

namespace Load

/-- From a state with an invariant the first computation keeps the invariant, and both end alike. -/
def keeping (Inv : Loading → Prop) (excused : Error → Prop) : Comparison Load Load where
  rel P x y := ∀ s, Inv s → Inv (x s).2 ∧ EndsAlike excused P (x s) (y s)
  rel_pure h s hs := ⟨hs, .done s h⟩
  rel_throw e s hs := ⟨hs, .failed e s⟩
  rel_bind := by
    intro _ _ _ _ P Q x y f g hxy hfg s hs
    obtain ⟨hkept, halike⟩ := hxy s hs
    rw [Computation.bind_apply, Computation.bind_apply]
    generalize x s = out, y s = out' at *
    cases halike with
    | excuse he => exact ⟨hkept, .excuse he⟩
    | failed e middle => exact ⟨hkept, .failed e middle⟩
    | done middle hab => exact hfg _ _ hab middle hkept
  rel_map := by
    intro _ _ _ _ P Q x y f g hxy hfg s hs
    obtain ⟨hkept, halike⟩ := hxy s hs
    rw [Computation.map_apply, Computation.map_apply]
    generalize x s = out, y s = out' at *
    cases halike with
    | excuse he => exact ⟨hkept, .excuse he⟩
    | failed e middle => exact ⟨hkept, .failed e middle⟩
    | done middle hab => exact ⟨hkept, .done middle (hfg _ _ hab)⟩

/-- Both computations end alike without an excuse. -/
abbrev alike (I : Loading → Prop) : Comparison Load Load := keeping I fun _ ↦ False

variable {r : Registry} {fs : FileSystem} {load other : String → Load Template}
  {identity : Identity} {read : Load String} {I J : Loading → Prop}
  {P Q : Template → Prop}

/-- A text is compiled alike with two loaders that run alike for what it includes. -/
theorem alike_build {R : String → Prop}
    (hread : (alike I).rel (fun a b ↦ a = b ∧ R a) read read)
    (hload : ∀ text nodes, R text → Node.parse r.tagKind? text = .ok nodes →
      ∀ identifier ∈ Node.loadsOf r nodes,
        (alike I).rel Eq (load identifier) (other identifier))
    (hserial : ∀ s, I s → I { s with nextSerial := s.nextSerial + 1 }) :
    (alike I).rel (fun t u ↦ t = u ∧ t.identity = identity ∧ t.registry = r)
      (read >>= build r load identity) (read >>= build r other identity) := by
  refine (alike I).rel_bind hread ?_
  rintro text _ ⟨rfl, htext⟩
  refine (alike I).rel_bind (Comparison.rel_ofExcept_self _ _) ?_
  rintro nodes _ ⟨hnodes, rfl⟩
  refine (alike I).rel_bind
    (Node.rel_compileAll_of_loads _ (respects_self r) (.refl r) nodes (hload text nodes htext hnodes)) ?_
  intro body _ hbody s hs
  rw [List.forall₂_eq_eq_eq] at hbody
  subst hbody
  exact ⟨hserial s hs, .done _ ⟨rfl, rfl, rfl⟩⟩

/-- A template is loaded alike with two loaders with which it is built alike below its identity. -/
theorem alike_template
    (hhit : ∀ s t cache, I s → s.cache.get identity = (some t, cache) →
      I { s with cache } ∧ Q t)
    (hmiss : ∀ s cache, I s → s.cache.get identity = (none, cache) → I { s with cache } ∧
      ∀ stack, s.stack.enter identity = .ok stack →
        J { s with cache, stack, events := .entered stack :: s.events })
    (hbuild : (alike J).rel (fun t u ↦ t = u ∧ P t)
      (read >>= build r load identity) (read >>= build r other identity))
    (hleave : ∀ s, J s → I { s with stack := s.stack.leave })
    (hstore : ∀ s t, J s → P t → Q (s.cache.insert t).1 ∧
      I { s with stack := s.stack.leave, cache := (s.cache.insert t).2 }) :
    (alike I).rel (fun t u ↦ t = u ∧ Q t) (template r load identity read)
      (template r other identity read) := by
  intro s hs
  rw [template_apply, template_apply]
  rcases hget : s.cache.get identity with ⟨_ | t, cache⟩ <;> dsimp only
  · obtain ⟨hkept, hentered⟩ := hmiss s cache hs hget
    rcases henter : s.stack.enter identity with e | stack <;> dsimp only
    · exact ⟨hkept, .failed e _⟩
    · obtain ⟨hinner, halike⟩ := hbuild _ (hentered stack henter)
      generalize (read >>= build r load identity) _ = out,
        (read >>= build r other identity) _ = out' at *
      cases halike with
      | excuse he => exact he.elim
      | failed e after => exact ⟨hleave after hinner, .failed e _⟩
      | done after hbuilt =>
        obtain ⟨rfl, hbuilt⟩ := hbuilt
        obtain ⟨hresult, hstored⟩ := hstore after _ hinner hbuilt
        exact ⟨hstored, .done _ ⟨rfl, hresult⟩⟩
  · obtain ⟨hkept, hfound⟩ := hhit s t cache hs hget
    exact ⟨hkept, .done _ ⟨rfl, hfound⟩⟩

/-- The text of a file is what stands behind its path, and reading it only leaves a note. -/
theorem alike_readText (path : Path)
    (hread : ∀ s, I s → I { s with events := .read path :: s.events }) :
    (alike I).rel (fun a b ↦ a = b ∧ fs.textOf (.file path) = .ok a)
      (readText fs path) (readText fs path) := by
  intro s hs
  rw [readText_apply]
  refine ⟨hread s hs, ?_⟩
  cases htext : fs.textOf (.file path) with
  | error e => exact .failed e _
  | ok text => exact .done _ ⟨rfl, rfl⟩

end Load

/-! ### The recursion -/

/-- A state with an include stack, in which all stacks that were entered have a property. -/
structure Loading.On (G : IncludeStack → Prop) (stack : IncludeStack) (s : Loading) : Prop where
  stack : s.stack = stack
  entered : ∀ t, .entered t ∈ s.events → G t

namespace Load

/-- The template in the file of an identifier, with the loader of its inclusions left open. -/
def fileWith (r : Registry) (fs : FileSystem) (load : String → Load Template)
    (identifier : String) : Load Template :=
  if r.fileAccess then do
    let path ← ofExcept (fs.resolve identifier r.roots)
    template r load (.file path) (readText fs path)
  else throw .filesUnavailable

/-- What is asked for, with the loader of files left open. -/
def request (r : Registry) (load : String → Load Template) : Request → Load Template
  | .text source => template r load (.source source) (pure source)
  | .file identifier => load identifier

theorem file_eq_iterate (r : Registry) (fs : FileSystem) (depth : Nat) :
    file r fs depth =
      (fileWith r fs)^[depth] fun identifier ↦ throw (.circularInclude identifier) := by
  induction depth with
  | zero => rfl
  | succ depth ih =>
    rw [Function.iterate_succ_apply', ← ih]
    rfl

variable {r : Registry} {fs : FileSystem} {load other : String → Load Template}
  {identity entry : Identity} {identifier : String} {stack : IncludeStack}
  {G : IncludeStack → Prop}

/-- A template is loaded alike, on the stack that is put back, if its text is read alike and what it
includes is loaded alike on the stack that it makes. -/
theorem alike_template_on {read : Load String} {R : String → Prop}
    (hgood : ∀ inner, stack.enter identity = .ok inner → G inner)
    (hread : ∀ inner, (alike (Loading.On G inner)).rel (fun a b ↦ a = b ∧ R a)
      read read)
    (hload : ∀ inner text nodes, stack.enter identity = .ok inner → R text →
      Node.parse r.tagKind? text = .ok nodes → ∀ identifier ∈ Node.loadsOf r nodes,
        (alike (Loading.On G inner)).rel Eq (load identifier) (other identifier)) :
    (alike (Loading.On G stack)).rel Eq (template r load identity read)
      (template r other identity read) := by
  have hbuild (inner : IncludeStack) (h : stack.enter identity = .ok inner) :
      (alike (Loading.On G inner)).rel
        (fun t u ↦ t = u ∧ t.identity = identity ∧ t.registry = r)
        (read >>= build r load identity) (read >>= build r other identity) :=
    alike_build (hread inner) (fun text nodes ↦ hload inner text nodes h)
      fun s hs ↦ ⟨hs.stack, hs.entered⟩
  have htemplate := alike_template (Q := fun _ ↦ True)
    (I := Loading.On G stack)
    (J := fun s ↦ stack.enter identity = .ok s.stack ∧ s.On G s.stack)
    (fun s t cache hs _ ↦ ⟨⟨hs.stack, hs.entered⟩, trivial⟩)
    (by
      intro s cache hs _
      refine ⟨⟨hs.stack, hs.entered⟩, fun inner hinner ↦ ?_⟩
      rw [hs.stack] at hinner
      refine ⟨hinner, rfl, fun t ht ↦ ?_⟩
      rcases List.mem_cons.mp ht with heq | hold
      · cases heq
        exact hgood _ hinner
      · exact hs.entered t hold)
    (by
      intro s hs
      obtain ⟨hkept, halike⟩ := hbuild s.stack hs.1 s hs.2
      refine ⟨⟨hkept.stack ▸ hs.1, rfl, hkept.entered⟩, halike⟩)
    (fun s hs ↦ ⟨IncludeStack.leave_of_enter hs.1, hs.2.entered⟩)
    (fun s t hs _ ↦ ⟨trivial, IncludeStack.leave_of_enter hs.1, hs.2.entered⟩)
  simpa only [and_true] using htemplate

/-- A file that is loaded alike when it is built alike below its path. -/
theorem alike_fileWith
    (hfile : ∀ path, r.fileAccess = true → fs.resolve identifier r.roots = .ok path →
      (alike (Loading.On G stack)).rel Eq
        (template r load (.file path) (readText fs path))
        (template r other (.file path) (readText fs path))) :
    (alike (Loading.On G stack)).rel Eq (fileWith r fs load identifier)
      (fileWith r fs other identifier) := by
  unfold fileWith
  split
  · next haccess =>
    refine (alike _).rel_bind (Comparison.rel_ofExcept_self _ _) ?_
    rintro path _ ⟨hpath, rfl⟩
    exact hfile path haccess hpath
  · exact (alike _).rel_throw _

theorem alike_readText_on (path : Path) :
    (alike (Loading.On G stack)).rel
      (fun a b ↦ a = b ∧ fs.textOf (.file path) = .ok a) (readText fs path) (readText fs path) := by
  refine alike_readText path fun s hs ↦ ⟨hs.stack, fun t ht ↦ ?_⟩
  rcases List.mem_cons.mp ht with heq | hold
  · cases heq
  · exact hs.entered t hold

/-! ### Termination -/

/-- What stands at the end of a recursion that is deep enough does not show. -/
theorem iterate_congr (bottom bottom' : String → Load Template) (depth depth' : Nat)
    (h : fs.Suffices r stack identifier depth) (h' : fs.Suffices r stack identifier depth') :
    (alike (Loading.On (fun _ ↦ True) stack)).rel Eq
      ((fileWith r fs)^[depth] bottom identifier)
      ((fileWith r fs)^[depth'] bottom' identifier) := by
  induction depth generalizing depth' identifier stack with
  | zero => exact (FileSystem.not_suffices_zero h).elim
  | succ depth ih =>
    cases depth' with
    | zero => exact (FileSystem.not_suffices_zero h').elim
    | succ depth' =>
      rw [Function.iterate_succ_apply', Function.iterate_succ_apply']
      refine alike_fileWith fun path _ hpath ↦ ?_
      refine alike_template_on (fun _ _ ↦ trivial) (fun _ ↦ alike_readText_on path) ?_
      intro inner text nodes hinner htext hnodes identifier hidentifier
      have hread : fs.readText path = .ok text := Computation.mapError_eq_ok.mp htext
      have hliteral := Node.mem_literalsOf_of_mem_loadsOf hidentifier
      exact ih depth' (h.of_enter hpath hinner hread hnodes hliteral)
        (h'.of_enter hpath hinner hread hnodes hliteral)

/-- Files are loaded alike at all depths from the one on that exceeds every chain of inclusions. -/
theorem iterate_eq_file (bottom : String → Load Template) (depth : Nat) (h : fs.size + 2 ≤ depth) :
    (fileWith r fs)^[depth] bottom = file r fs (fs.size + 2) := by
  funext identifier s
  have hsuffices : fs.Suffices r s.stack identifier depth := .inl h
  rw [file_eq_iterate]
  exact (iterate_congr bottom _ depth (fs.size + 2) hsuffices (.inl (Nat.le_refl _)) s
    ⟨rfl, fun _ _ ↦ trivial⟩).2.eq

/-- Loading files is the recursion with which they are loaded. -/
theorem file_eq_fileWith :
    file r fs (fs.size + 2) = fileWith r fs (file r fs (fs.size + 2)) := by
  have hstep : (fileWith r fs)^[fs.size + 2 + 1] (file r fs 0) = file r fs (fs.size + 2) :=
    iterate_eq_file _ _ (by omega)
  rw [Function.iterate_succ_apply', iterate_eq_file _ _ (Nat.le_refl _)] at hstep
  exact hstep.symm

/-- A template that is answered is in the cache, or it was just built against the registry. -/
theorem mem_or_registry_of_request {q : Request} {s after : Loading} {t : Template}
    (h : request r (file r fs (fs.size + 2)) q s = (.ok t, after)) :
    t ∈ after.cache.templates ∨ t.registry = r := by
  cases q with
  | text source => exact mem_or_registry_of_template h
  | file identifier =>
    rw [request, file_eq_fileWith, fileWith] at h
    split at h
    · rw [Computation.bind_apply, Computation.ofExcept_apply] at h
      cases hpath : fs.resolve identifier r.roots with
      | error e =>
        rw [hpath] at h
        cases h
      | ok path =>
        rw [hpath] at h
        exact mem_or_registry_of_template h
    · cases h

/-! ### Balance -/

private theorem alike_file {depth : Nat} (h : fs.Suffices r stack identifier depth) :
    (alike (Loading.On (fun _ ↦ True) stack)).rel Eq (file r fs depth identifier)
      (file r fs depth identifier) := by
  rw [file_eq_iterate]
  exact iterate_congr _ _ depth depth h h

/-- Loading a file puts the stack back. -/
theorem stack_file {s : Loading} {depth : Nat} (h : fs.Suffices r s.stack identifier depth) :
    (file r fs depth identifier s).2.stack = s.stack :=
  (alike_file h s ⟨rfl, fun _ _ ↦ trivial⟩).1.stack

/-- Loading a template puts the stack back. -/
theorem stack_template {read : Load String} {R : String → Prop}
    (hread : ∀ inner, (alike (Loading.On (fun _ ↦ True) inner)).rel
      (fun a b ↦ a = b ∧ R a) read read) (s : Loading) :
    (template r (file r fs (fs.size + 2)) identity read s).2.stack = s.stack := by
  have hkept : (alike (Loading.On (fun _ ↦ True) s.stack)).rel Eq
      (template r (file r fs (fs.size + 2)) identity read)
      (template r (file r fs (fs.size + 2)) identity read) :=
    alike_template_on (fun _ _ ↦ trivial) hread fun inner _ _ _ _ _ identifier _ ↦
      alike_file (.inl (Nat.le_refl _))
  exact (hkept s ⟨rfl, fun _ _ ↦ trivial⟩).1.stack

variable (r fs) in
/-- What a text includes is loaded alike at the depth that a request for the text takes. -/
theorem template_source_eq (source : String) :
    template r (file r fs (fs.size + source.utf8ByteSize + 1)) (.source source) (pure source) =
      template r (file r fs (fs.size + 2)) (.source source) (pure source) := by
  funext s
  refine (alike_template_on (G := fun _ ↦ True) (R := (source = ·))
    (fun _ _ ↦ trivial) (fun _ ↦ (alike _).rel_pure ⟨rfl, rfl⟩) ?_ s
    ⟨rfl, fun _ _ ↦ trivial⟩).2.eq
  rintro inner _ nodes - rfl hnodes identifier hidentifier
  have hlength := Node.length_literalsOf_le hnodes
  have hpos := List.length_pos_of_mem (Node.mem_literalsOf_of_mem_loadsOf hidentifier)
  rw [file_eq_iterate, file_eq_iterate]
  refine iterate_congr _ _ _ _ (.inl ?_) (.inl (Nat.le_refl _))
  omega

end Load

/-! ### The depth of the stack -/

/-- A stack holds an entry and, above it, files that inclusions lead to from the entry, all of them
different. -/
structure IncludeStack.From (r : Registry) (fs : FileSystem) (entry : Identity)
    (stack : IncludeStack) : Prop where
  distinct : stack.identities.Pairwise fun i j ↦ i.same j = false
  reached : ∃ paths : List Path, stack.identities = paths.map .file ++ [entry] ∧
    ∀ path ∈ paths, TransGen (Includes r fs) entry (.file path)

namespace IncludeStack.From

variable {r : Registry} {fs : FileSystem} {entry : Identity} {stack inner : IncludeStack}
  {path : Path}

theorem of_enter (h : empty.enter entry = .ok inner) : inner.From r fs entry := by
  obtain ⟨-, rfl⟩ := enter_eq_ok.mp h
  exact ⟨List.pairwise_singleton _ _, [], rfl, nofun⟩

theorem enter (hs : stack.From r fs entry) (h : stack.enter (.file path) = .ok inner)
    (hpath : TransGen (Includes r fs) entry (.file path)) : inner.From r fs entry := by
  obtain ⟨hfresh, rfl⟩ := enter_eq_ok.mp h
  obtain ⟨paths, hidentities, hpaths⟩ := hs.reached
  refine ⟨List.pairwise_cons.mpr ⟨fun i hi ↦ ?_, hs.distinct⟩, path :: paths, ?_, ?_⟩
  · rw [Identity.same_comm]
    simpa using List.any_eq_false.mp hfresh i hi
  · rw [hidentities]
    rfl
  · exact List.forall_mem_cons.mpr ⟨hpath, hpaths⟩

/-- A stack is not deeper than there are files to reach, and the entry. -/
theorem depth_le (hs : stack.From r fs entry) :
    stack.depth ≤ 1 + (reachedFiles r fs entry).ncard := by
  obtain ⟨paths, hidentities, hpaths⟩ := hs.reached
  have hnodup : (paths.map Path.parts).Nodup := by
    have hdistinct := hs.distinct
    rw [hidentities, List.pairwise_append, List.pairwise_map] at hdistinct
    refine List.pairwise_map.mpr (hdistinct.1.imp fun hab heq ↦ ?_)
    simp [Identity.same, Path.same, heq] at hab
  have hsubset : ((paths.map Path.parts).toFinset : Set (List Path.Part)) ⊆
      reachedFiles r fs entry := by
    intro parts hparts
    obtain ⟨path, hpath, rfl⟩ := List.mem_map.mp (List.mem_toFinset.mp hparts)
    exact ⟨path, hpaths path hpath, rfl⟩
  have hcard := Set.ncard_le_ncard hsubset (finite_reachedFiles r fs entry)
  rw [Set.ncard_coe_finset, List.toFinset_card_of_nodup hnodup, List.length_map] at hcard
  rw [depth, hidentities, List.length_append, List.length_map, List.length_singleton]
  omega

end IncludeStack.From

/-- The template with an identity is the one that a request begins to compile. -/
def Request.Begins (r : Registry) (fs : FileSystem) : Request → Identity → Prop
  | .text source, i => i = .source source
  | .file identifier, i =>
    r.fileAccess = true ∧ ∃ path, fs.resolve identifier r.roots = .ok path ∧ i = .file path

/-- The identity of the template that stands for a request that fails. -/
def Request.identity : Request → Identity
  | .text source => .source source
  | .file identifier => .unresolved identifier

namespace Load

variable {r : Registry} {fs : FileSystem} {entry i : Identity} {identifier : String}
  {stack : IncludeStack} {nodes : List Node}

/-- While a file is loaded that is included below an entry, all stacks come from the entry. -/
theorem alike_from (depth : Nat) (hi : ReflTransGen (Includes r fs) entry i)
    (hnodes : fs.nodesOf r i = .ok nodes) (hmem : identifier ∈ Node.loadsOf r nodes)
    (hs : stack.From r fs entry) :
    (alike (Loading.On (·.From r fs entry) stack)).rel Eq
      (file r fs depth identifier) (file r fs depth identifier) := by
  induction depth generalizing i identifier nodes stack with
  | zero => exact (alike _).rel_throw _
  | succ depth ih =>
    change (alike _).rel Eq (fileWith r fs _ identifier) (fileWith r fs _ identifier)
    refine alike_fileWith fun path _ hpath ↦ ?_
    have hreached : TransGen (Includes r fs) entry (.file path) :=
      .tail' hi ⟨nodes, identifier, path, hnodes, hmem, hpath, rfl⟩
    refine alike_template_on (fun inner hinner ↦ hs.enter hinner hreached)
      (fun _ ↦ alike_readText_on path) ?_
    intro inner text nodes' hinner htext hnodes' other hother
    exact ih hreached.to_reflTransGen (FileSystem.nodesOf_eq_ok.mpr ⟨text, htext, hnodes'⟩)
      hother (hs.enter hinner hreached)

/-- While the template of an entry is loaded, all stacks come from the entry. -/
theorem alike_entry (depth : Nat) {read : Load String}
    (hread : ∀ inner, (alike (Loading.On (·.From r fs entry) inner)).rel
      (fun a b ↦ a = b ∧ fs.textOf entry = .ok a) read read) :
    (alike (Loading.On (·.From r fs entry) .empty)).rel Eq
      (template r (file r fs depth) entry read) (template r (file r fs depth) entry read) := by
  refine alike_template_on (fun inner ↦ .of_enter) hread ?_
  intro inner text nodes hinner htext hnodes identifier hmem
  exact alike_from depth .refl (FileSystem.nodesOf_eq_ok.mpr ⟨text, htext, hnodes⟩) hmem
    (.of_enter hinner)

/-- Every stack that is made for a request comes from the entry that the request begins with. -/
theorem from_of_entered {q : Request} {s : Loading} (hstack : s.stack = .empty)
    (hevents : s.events = [])
    (h : .entered stack ∈ (request r (file r fs (fs.size + 2)) q s).2.events) :
    ∃ entry, q.Begins r fs entry ∧ stack.From r fs entry := by
  have hon (entry : Identity) : s.On (·.From r fs entry) .empty :=
    ⟨hstack, fun t ht ↦ by rw [hevents] at ht; cases ht⟩
  cases q with
  | text source =>
    have hkept := alike_entry (fs.size + 2) (fun _ ↦ (alike _).rel_pure ⟨rfl, rfl⟩) s
      (hon (.source source))
    exact ⟨_, rfl, hkept.1.entered stack h⟩
  | file identifier =>
    change _ ∈ (fileWith r fs (file r fs (fs.size + 1)) identifier s).2.events at h
    unfold fileWith at h
    split at h
    · next haccess =>
      rcases hpath : fs.resolve identifier r.roots with e | path <;>
        simp only [hpath, Computation.bind_apply, Computation.ofExcept_apply] at h
      · rw [hevents] at h
        cases h
      · have hkept := alike_entry (fs.size + 1) (fun _ ↦ alike_readText_on path) s
          (hon (.file path))
        exact ⟨_, ⟨haccess, path, hpath, rfl⟩, hkept.1.entered stack h⟩
    · rw [Computation.throw_apply, hevents] at h
      cases h

end Load

namespace Engine

/-- What loading ends with when a request is answered. -/
def load (e : Engine) (fs : FileSystem) (q : Request) : Except Error Template × Loading :=
  e.run (Load.request e.registry (Load.file e.registry fs (fs.size + 2)) q)

/-- What an engine answers is what loading ends with, as the policy wants it. -/
theorem answer_eq (e : Engine) (fs : FileSystem) (q : Request) :
    e.answer fs q = e.applyPolicy q.identity (e.load fs q) := by
  cases q with
  | text source =>
    have hdepth := Load.template_source_eq e.registry fs source
    exact congrArg (fun load ↦ e.applyPolicy (.source source) (e.run load)) hdepth
  | file identifier => rfl

/-- An engine answers every request, whatever files there are and however they include each other.
There is one way to load files that is the recursion of loading files: nothing shows of what stands
behind as many calls within each other as the files have bytes. While the request is answered, no
template is entered that is the same as one on the stack, and the stack is never deeper than there
are files to reach, and the entry. Loading a file, and compiling the template of a text or of a path,
give the stack back as they found it, from whatever state and however they end. -/
theorem answer_balanced (e : Engine) (fs : FileSystem) (q : Request) :
    ∃ load : String → Load Template,
      (∀ bottom, (Load.fileWith e.registry fs)^[fs.size + 2] bottom = load) ∧
      load = Load.fileWith e.registry fs load ∧
      e.answer fs q = e.applyPolicy q.identity (e.run (Load.request e.registry load q)) ∧
      (∀ stack, .entered stack ∈ (e.run (Load.request e.registry load q)).2.events →
        stack.identities.Pairwise (fun i j ↦ i.same j = false) ∧
        ∃ entry, q.Begins e.registry fs entry ∧ (reachedFiles e.registry fs entry).Finite ∧
          stack.depth ≤ 1 + (reachedFiles e.registry fs entry).ncard) ∧
      (∀ identifier s, (load identifier s).2.stack = s.stack) ∧
      (∀ source s, (Load.template e.registry load (.source source) (pure source) s).2.stack =
        s.stack) ∧
      (∀ path s, (Load.template e.registry load (.file path) (Load.readText fs path) s).2.stack =
        s.stack) := by
  refine ⟨Load.file e.registry fs (fs.size + 2), ?_, Load.file_eq_fileWith, e.answer_eq fs q, ?_,
    fun _ _ ↦ Load.stack_file (.inl (Nat.le_refl _)), ?_, ?_⟩
  · exact fun bottom ↦ Load.iterate_eq_file bottom _ (Nat.le_refl _)
  · intro stack hstack
    obtain ⟨entry, hentry, hfrom⟩ := Load.from_of_entered rfl rfl hstack
    exact ⟨hfrom.distinct, entry, hentry, finite_reachedFiles _ _ _, hfrom.depth_le⟩
  · exact fun source ↦ Load.stack_template (R := (source = ·))
      fun _ ↦ (Load.alike _).rel_pure ⟨rfl, rfl⟩
  · exact fun path ↦ Load.stack_template fun _ ↦ Load.alike_readText_on path

end Engine

end Stencil
