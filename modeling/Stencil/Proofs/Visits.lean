import Stencil.Proofs.Cycles
import Stencil.Proofs.Grammar
import Stencil.Proofs.LoadFree

/-!
# Every file is compiled once

With a cache the files that inclusions lead to are loaded as a graph is searched depth first: a file
is read and compiled when it is looked up for the first time, and found from then on. So the graph
tells what the cache counts. There is a miss for each file, and a lookup for each inclusion in them.
-/

namespace Stencil

open Relation

/-! ### The inclusions in a text -/

/-- Whether a tag name stands for the inclusion. -/
def Registry.isInclusion (r : Registry) (name : String) : Bool :=
  match r.tag? name with
  | some .inclusion => true
  | _ => false

/-- The number of inclusions in some nodes, at any depth. -/
def Node.inclusionCount (r : Registry) (nodes : List Node) : Nat :=
  (headsOf nodes).countP fun head ↦ r.isInclusion head.name

theorem Node.inclusionCount_tag_cons (r : Registry) (head : TagHead) (kind : TagKind)
    (children rest : List Node) (span : Span) :
    inclusionCount r (.tag head kind children span :: rest) =
      ((if r.isInclusion head.name then 1 else 0) + inclusionCount r children) +
        inclusionCount r rest := by
  rw [inclusionCount, headsOf, heads, List.countP_append, List.countP_cons,
    Nat.add_comm (List.countP _ _)]
  rfl

/-- The number of inclusions in the text of a file. -/
def FileSystem.inclusionCount (fs : FileSystem) (r : Registry) (path : Path) : Nat :=
  match fs.nodesOf r (.file path) with
  | .ok nodes => Node.inclusionCount r nodes
  | .error _ => 0

/-! ### What loading visits -/

namespace Loading

/-- The files that were read, newest first. -/
def reads (s : Loading) : List Path :=
  s.events.filterMap fun
    | .read path => some path
    | .entered _ => none

/-- What leads from one state of loading to another, if the cache is enabled. The files that were
read are compiled and cached by now, each after it was looked up in vain, and none of them was on
the stack, which is the same again. Beside the inclusions in these files there were some more
lookups. -/
structure Visits (r : Registry) (fs : FileSystem) (entry : Path) (lookups : Nat) (paths : List Path)
    (s after : Loading) : Prop where
  enabled : after.cache.enabled = true
  stack : after.stack = s.stack
  cached : ∃ new, after.cache.templates = new ++ s.cache.templates ∧
    new.map Template.identity = paths.map .file
  reads : after.reads.Perm (paths ++ s.reads)
  misses : after.cache.misses = s.cache.misses + paths.length
  lookups : after.cache.hits + after.cache.misses =
    s.cache.hits + s.cache.misses + lookups + (paths.map (fs.inclusionCount r)).sum
  apart : ∀ path ∈ paths, s.stack.contains (.file path) = false
  reached : ∀ path ∈ paths, ReflTransGen (Includes r fs) (.file entry) (.file path)

variable {r : Registry} {fs : FileSystem} {entry : Path} {k l : Nat} {first second : List Path}
  {s middle after : Loading}

theorem Visits.refl (h : s.cache.enabled = true) : Visits r fs entry 0 [] s s :=
  ⟨h, rfl, ⟨[], rfl, rfl⟩, .refl _, rfl, rfl, nofun, nofun⟩

theorem Visits.trans (h : Visits r fs entry k first s middle)
    (h' : Visits r fs entry l second middle after) :
    Visits r fs entry (k + l) (second ++ first) s after where
  enabled := h'.enabled
  stack := h'.stack.trans h.stack
  cached := by
    obtain ⟨new, hnew, hpaths⟩ := h.cached
    obtain ⟨new', hnew', hpaths'⟩ := h'.cached
    refine ⟨new' ++ new, ?_, ?_⟩
    · rw [hnew', hnew, List.append_assoc]
    · rw [List.map_append, List.map_append, hpaths, hpaths']
  reads := by
    rw [List.append_assoc]
    exact h'.reads.trans (h.reads.append_left second)
  misses := by
    rw [h'.misses, h.misses, List.length_append]
    omega
  lookups := by
    rw [h'.lookups, h.lookups, List.map_append, List.sum_append]
    omega
  apart path hpath := by
    rcases List.mem_append.mp hpath with hpath | hpath
    · exact h.stack ▸ h'.apart path hpath
    · exact h.apart path hpath
  reached path hpath := by
    rcases List.mem_append.mp hpath with hpath | hpath
    · exact h'.reached path hpath
    · exact h.reached path hpath

end Loading

namespace Load

/-- With an enabled cache, what a computation with a result has visited, and how many lookups there
were beside those for the inclusions in what was visited. -/
def Visits {α : Type} (r : Registry) (fs : FileSystem) (entry : Path) (lookups : Nat) (x : Load α) :
    Prop :=
  ∀ s a after, s.cache.enabled = true → x s = (.ok a, after) →
    ∃ paths, Loading.Visits r fs entry lookups paths s after

variable {r : Registry} {fs : FileSystem} {entry : Path} {k l : Nat} {α β : Type} {x : Load α}

namespace Visits

theorem pure (a : α) : Visits r fs entry 0 (pure a : Load α) := by
  intro s b after henabled h
  cases h
  exact ⟨[], .refl henabled⟩

theorem throw (e : Error) : Visits r fs entry k (throw e : Load α) := by
  intro s a after _ h
  cases h

theorem serial : Visits r fs entry 0 Load.serial := by
  intro s n after henabled h
  cases h
  exact ⟨[], henabled, rfl, ⟨[], rfl, rfl⟩, .refl _, rfl, rfl, nofun, nofun⟩

theorem bind {f : α → Load β} (hx : Visits r fs entry k x)
    (hf : ∀ a, Visits r fs entry l (f a)) : Visits r fs entry (k + l) (x >>= f) := by
  intro s b after henabled h
  obtain ⟨a, middle, hfirst, hsecond⟩ := Computation.bind_apply_eq_ok.mp h
  obtain ⟨first, hvisits⟩ := hx s a middle henabled hfirst
  obtain ⟨second, hvisits'⟩ := hf a middle b after hvisits.enabled hsecond
  exact ⟨second ++ first, hvisits.trans hvisits'⟩

theorem ofExcept_bind {y : Except Error α} {f : α → Load β}
    (hf : ∀ a, y = .ok a → Visits r fs entry k (f a)) :
    Visits r fs entry k (ofExcept y >>= f) := by
  cases y with
  | error e => exact throw e
  | ok a => exact hf a rfl

theorem ofExcept (y : Except Error α) : Visits r fs entry 0 (ofExcept y : Load α) := by
  cases y with
  | error e => exact throw e
  | ok a => exact pure a

theorem map {f : α → β} (hx : Visits r fs entry k x) : Visits r fs entry k (f <$> x) := by
  rw [map_eq_pure_bind]
  exact hx.bind fun a ↦ pure (f a)

end Visits

end Load

/-! ### Nodes -/

namespace Node

variable {r : Registry} {fs : FileSystem} {entry : Path} {k l : Nat} {load : String → Load Template}

private theorem visits_cons {node : Node} {rest : List Node}
    (h : Load.Visits r fs entry k (compile r load node))
    (hrest : Load.Visits r fs entry l (compileAll r load rest)) :
    Load.Visits r fs entry (k + l) (compileAll r load (node :: rest)) := by
  rw [compileAll]
  exact h.bind fun i ↦ hrest.bind fun body ↦ .pure (i :: body)

/-- A tag visits what its body does. The inclusion has no body, and looks up one template. -/
private theorem visits_tag {head : TagHead} {kind : TagKind} {children : List Node} {span : Span}
    (hbody : Load.Visits r fs entry k (bodyOf kind (compileAll r load children)))
    (hload : r.tag? head.name = some .inclusion → k = 0 ∧
      ∀ identifier, head.literal? = some identifier →
        Load.Visits r fs entry 1 (load identifier)) :
    Load.Visits r fs entry ((if r.isInclusion head.name then 1 else 0) + k)
      (compile r load (.tag head kind children span)) := by
  rw [compile, Registry.isInclusion]
  rcases htag : r.tag? head.name with _ | handler | handler | _ <;> dsimp only
  · exact .throw _
  · rw [if_neg Bool.false_ne_true]
    exact (Load.Visits.ofExcept _).bind fun arguments ↦ hbody.bind fun body ↦ .pure _
  · rw [if_neg Bool.false_ne_true, Nat.add_comm]
    exact hbody.bind fun body ↦ .ofExcept _
  · obtain ⟨rfl, hvisits⟩ := hload htag
    cases hliteral : head.literal? with
    | none => exact .throw _
    | some identifier => exact (hvisits identifier hliteral).bind fun t ↦ .pure _

/-- The lookups for some nodes are those for the inclusions in them. -/
theorem visits_compileAll {tokens : List Placed} {nodes : List Node}
    (h : Derives r.tagKind? tokens nodes)
    (hload : ∀ identifier ∈ loadsOf r nodes, Load.Visits r fs entry 1 (load identifier)) :
    Load.Visits r fs entry (inclusionCount r nodes) (compileAll r load nodes) := by
  induction h with
  | nil => exact .pure []
  | text rest ih =>
    rw [compileAll, compile, pure_bind]
    exact (ih hload).bind fun body ↦ .pure _
  | @output code e first middle last tokens nodes hparse rest ih =>
    have hnode : Load.Visits r fs entry 0
        (compile r load (.output e ⟨first.start, last.stop⟩)) := by
      rw [compile]
      exact (Load.Visits.ofExcept _).map
    have hboth := visits_cons hnode (ih hload)
    rwa [Nat.zero_add] at hboth
  | @standalone code first middle last tokens nodes hname hkind rest ih =>
    rw [inclusionCount_tag_cons]
    refine visits_cons (visits_tag (.pure none) fun htag ↦ ⟨rfl, fun identifier hliteral ↦ ?_⟩)
      (ih fun i hi ↦ hload i (List.mem_append_right _ hi))
    refine hload identifier (List.mem_append_left _ ?_)
    simp [loads, htag, hliteral]
  | @block code ending first middle last first' middle' last' inner tokens children nodes hname
      hkind body hend hfree rest ihbody ih =>
    rw [inclusionCount_tag_cons]
    have hblock : r.tag? (TagHead.ofCode code).name ≠ some .inclusion := by
      intro htag
      rw [Registry.tagKind?, htag] at hkind
      cases hkind
    have hbody := ihbody fun i hi ↦ hload i (List.mem_append_left _ ?_)
    · exact visits_cons (visits_tag (.map hbody) fun htag ↦ absurd htag hblock)
        (ih fun i hi ↦ hload i (List.mem_append_right _ hi))
    · unfold loads
      rcases htag : r.tag? (TagHead.ofCode code).name with _ | handler | handler | _
      · rw [Registry.tagKind?, htag] at hkind
        cases hkind
      · exact hi
      · exact hi
      · exact absurd htag hblock

end Node

/-! ### Files -/

namespace Load

variable {r : Registry} {fs : FileSystem} {entry path : Path} {load : String → Load Template}

/-- The lookups for the text of a file are those for the inclusions in it. -/
private theorem visits_build {text : String} (htext : fs.textOf (.file path) = .ok text)
    (hload : ∀ nodes, fs.nodesOf r (.file path) = .ok nodes →
      ∀ identifier ∈ Node.loadsOf r nodes, Visits r fs entry 1 (load identifier)) :
    Visits r fs entry (fs.inclusionCount r path) (build r load (.file path) text) := by
  refine .ofExcept_bind fun nodes hparse ↦ ?_
  have hnodes := FileSystem.nodesOf_eq_ok.mpr ⟨text, htext, hparse⟩
  obtain ⟨tokens, -, hwalk⟩ := Computation.bind_eq_ok.mp hparse
  obtain ⟨found, hderives, hfound⟩ := Node.completes_of_walk hwalk
  obtain rfl : nodes = found := hfound
  have hcount : fs.inclusionCount r path = Node.inclusionCount r nodes := by
    rw [FileSystem.inclusionCount, hnodes]
  rw [hcount]
  exact (Node.visits_compileAll hderives (hload nodes hnodes)).bind fun body ↦
    Visits.serial.bind fun n ↦ .pure _

/-- A file that was looked up in vain and entered is visited when its text has been compiled. -/
private theorem visits_of_compiled {s start middle : Loading} {inner : IncludeStack} {t : Template}
    {paths : List Path} (hpath : ReflTransGen (Includes r fs) (.file entry) (.file path))
    (hfind : s.cache.find? (.file path) = none) (henter : s.stack.enter (.file path) = .ok inner)
    (hcache : start.cache = { s.cache with misses := s.cache.misses + 1 })
    (hstack : start.stack = inner)
    (hevents : start.events = .read path :: .entered inner :: s.events)
    (h : Loading.Visits r fs entry (fs.inclusionCount r path) paths start middle)
    (ht : t.identity = .file path) :
    Loading.Visits r fs entry 1 (path :: paths) s { middle with
      stack := middle.stack.leave, cache := (middle.cache.insert t).2 } := by
  obtain ⟨hfresh, rfl⟩ := IncludeStack.enter_eq_ok.mp henter
  obtain ⟨new, hnew, hpaths⟩ := h.cached
  have hinner {other : Path} (hother : other ∈ paths) :
      (Identity.file path).same (.file other) = false ∧ s.stack.contains (.file other) = false := by
    have hapart := h.apart other hother
    rwa [hstack, IncludeStack.contains_cons, Bool.or_eq_false_iff] at hapart
  -- Everything that was cached since then is below the file on the stack, so it is another file.
  have hunstored : ∀ u ∈ middle.cache.templates, u.identity.same t.identity = false := by
    intro u hu
    rw [ht]
    rw [hnew, hcache] at hu
    rcases List.mem_append.mp hu with hu | hu
    · have hidentity := List.mem_map_of_mem (f := Template.identity) hu
      rw [hpaths] at hidentity
      obtain ⟨other, hother, heq⟩ := List.mem_map.mp hidentity
      rw [← heq, Identity.same_comm]
      exact (hinner hother).1
    · exact Cache.find?_eq_none.mp hfind u hu
  have hreads : start.reads = path :: s.reads := by
    rw [Loading.reads, hevents]
    rfl
  rw [Cache.insert_of_enabled h.enabled hunstored]
  constructor
  case enabled => exact h.enabled
  case stack =>
    rw [h.stack, hstack]
    rfl
  case cached =>
    refine ⟨t :: new, ?_, ?_⟩
    · rw [hnew, hcache]
      rfl
    · rw [List.map_cons, List.map_cons, ht, hpaths]
  case reads =>
    have hperm := h.reads
    rw [hreads] at hperm
    exact hperm.trans List.perm_middle
  case misses =>
    have hmisses := h.misses
    rw [hcache] at hmisses
    rw [List.length_cons]
    dsimp only at hmisses ⊢
    omega
  case lookups =>
    have hlookups := h.lookups
    rw [hcache] at hlookups
    rw [List.map_cons, List.sum_cons]
    dsimp only at hlookups ⊢
    omega
  case apart => exact List.forall_mem_cons.mpr ⟨hfresh, fun other hother ↦ (hinner hother).2⟩
  case reached => exact List.forall_mem_cons.mpr ⟨hpath, h.reached⟩

/-- A file that is looked up is there, or it is read and compiled, and is there from then on. -/
private theorem visits_template
    (hpath : ReflTransGen (Includes r fs) (.file entry) (.file path))
    (hload : ∀ nodes, fs.nodesOf r (.file path) = .ok nodes →
      ∀ identifier ∈ Node.loadsOf r nodes, Visits r fs entry 1 (load identifier)) :
    Visits r fs entry 1 (template r load (.file path) (readText fs path)) := by
  intro s t after henabled h
  rw [template_apply] at h
  cases hfind : s.cache.find? (.file path) with
  | some stored =>
    rw [Cache.get_of_find?_eq_some henabled hfind] at h
    cases h
    refine ⟨[], henabled, rfl, ⟨[], rfl, rfl⟩, .refl _, rfl, ?_, nofun, nofun⟩
    simp only [List.map_nil, List.sum_nil]
    omega
  | none =>
    rw [Cache.get_of_find?_eq_none henabled hfind] at h
    dsimp only at h
    cases henter : s.stack.enter (.file path) with
    | error e =>
      rw [henter] at h
      cases h
    | ok inner =>
      rw [henter] at h
      dsimp only at h
      split at h
      · cases h
      · next built last hbuilt =>
        obtain ⟨text, start, hread, hbuild⟩ := Computation.bind_apply_eq_ok.mp hbuilt
        rw [readText_apply, Prod.mk.injEq] at hread
        obtain ⟨htext, rfl⟩ := hread
        let start : Loading := ⟨{ s.cache with misses := s.cache.misses + 1 }, inner, s.nextSerial,
          .read path :: .entered inner :: s.events⟩
        obtain ⟨paths, hvisits⟩ := visits_build htext hload start built last henabled hbuild
        cases h
        exact ⟨path :: paths, visits_of_compiled hpath hfind henter rfl rfl rfl hvisits
          (identity_registry_of_build hbuilt).1⟩

/-- A file that inclusions lead to from the entry is looked up with all that it includes. -/
theorem visits_file (depth : Nat) (identifier : String)
    (h : ∀ path, fs.resolve identifier r.roots = .ok path →
      ReflTransGen (Includes r fs) (.file entry) (.file path)) :
    Visits r fs entry 1 (file r fs depth identifier) := by
  induction depth generalizing identifier with
  | zero => exact .throw _
  | succ depth ih =>
    rw [file]
    split
    · refine .ofExcept_bind fun path hpath ↦ visits_template (h path hpath) ?_
      intro nodes hnodes other hmem
      refine ih other fun next hnext ↦ (h path hpath).tail ?_
      exact ⟨nodes, other, next, hnodes, hmem, hnext, rfl⟩
    · exact .throw _

end Load

/-! ### The files below an entry -/

/-- Whether some paths are the files that inclusions lead to from an entry on, the entry included,
with one path for each file. -/
structure Enumerates (r : Registry) (fs : FileSystem) (entry : Path) (paths : List Path) :
    Prop where
  distinct : paths.Pairwise fun p q ↦ p.same q = false
  reached : ∀ path ∈ paths, ReflTransGen (Includes r fs) (.file entry) (.file path)
  complete : ∀ path, ReflTransGen (Includes r fs) (.file entry) (.file path) →
    ∃ p ∈ paths, p.same path = true

/-- Paths of one file lead to the same inclusions. -/
theorem FileSystem.inclusionCount_of_same {fs : FileSystem} {r : Registry} {p q : Path}
    (h : p.same q = true) (hp : fs.Holds (.file p)) (hq : fs.Holds (.file q)) :
    fs.inclusionCount r p = fs.inclusionCount r q := by
  have hsame : (Identity.file p).same (.file q) = true := h
  rw [inclusionCount, inclusionCount, nodesOf, nodesOf, textOf_of_same hsame hp hq]

namespace Enumerates

variable {r : Registry} {fs : FileSystem} {entry : Path} {paths others : List Path}

private theorem nodup_parts (h : Enumerates r fs entry paths) : (paths.map Path.parts).Nodup := by
  refine List.pairwise_map.mpr (h.distinct.imp fun hpq heq ↦ ?_)
  rw [Path.same_iff.mpr heq] at hpq
  cases hpq

private theorem parts_subset (h : Enumerates r fs entry paths) (h' : Enumerates r fs entry others)
    {parts : List Path.Part} (hparts : parts ∈ paths.map Path.parts) :
    parts ∈ others.map Path.parts := by
  obtain ⟨path, hpath, rfl⟩ := List.mem_map.mp hparts
  obtain ⟨p, hp, hsame⟩ := h'.complete path (h.reached path hpath)
  exact List.mem_map.mpr ⟨p, hp, Path.same_iff.mp hsame⟩

/-- Two lists of the files are the same up to their order and the spelling of paths. -/
theorem perm_parts (h : Enumerates r fs entry paths) (h' : Enumerates r fs entry others) :
    (paths.map Path.parts).Perm (others.map Path.parts) :=
  (List.perm_ext_iff_of_nodup h.nodup_parts h'.nodup_parts).mpr fun _ ↦
    ⟨parts_subset h h', parts_subset h' h⟩

theorem of_perm (h : Enumerates r fs entry paths) (hperm : others.Perm paths) :
    Enumerates r fs entry others where
  distinct := hperm.symm.pairwise h.distinct fun hpq ↦ by rwa [Path.same, Bool.beq_comm]
  reached path hpath := h.reached path (hperm.mem_iff.mp hpath)
  complete path hpath := by
    obtain ⟨p, hp, hsame⟩ := h.complete path hpath
    exact ⟨p, hperm.mem_iff.mpr hp, hsame⟩

theorem length_eq (h : Enumerates r fs entry paths) (h' : Enumerates r fs entry others) :
    paths.length = others.length := by
  simpa using (h.perm_parts h').length_eq

/-- Every list of the files has the same inclusions in it. -/
theorem sum_inclusionCount_eq (hentry : fs.Holds (.file entry)) (h : Enumerates r fs entry paths)
    (h' : Enumerates r fs entry others) :
    (paths.map (fs.inclusionCount r)).sum = (others.map (fs.inclusionCount r)).sum := by
  have hholds {path : Path} (hpath : ReflTransGen (Includes r fs) (.file entry) (.file path)) :
      fs.Holds (.file path) := by
    rcases hpath.cases_tail with heq | ⟨i, -, hstep⟩
    · exact heq ▸ hentry
    · exact hstep.holds_target
  -- The number of inclusions in a file can be told from the parts of its path.
  let count (parts : List Path.Part) : Nat :=
    ((paths.find? fun p ↦ p.parts = parts).map (fs.inclusionCount r)).getD 0
  have hcount {path : Path} (hpath : ReflTransGen (Includes r fs) (.file entry) (.file path)) :
      fs.inclusionCount r path = count path.parts := by
    cases hfind : paths.find? fun p ↦ p.parts = path.parts with
    | none =>
      obtain ⟨p, hp, hsame⟩ := h.complete path hpath
      have hnot := List.find?_eq_none.mp hfind p hp
      exact absurd (decide_eq_true (Path.same_iff.mp hsame)) hnot
    | some p =>
      have hsame : p.same path = true := Path.same_iff.mpr (by simpa using List.find?_some hfind)
      have hp := h.reached p (List.mem_of_find?_eq_some hfind)
      simp only [count, hfind, Option.map_some, Option.getD_some]
      exact (FileSystem.inclusionCount_of_same hsame (hholds hp) (hholds hpath)).symm
  have hsum {list : List Path} (hlist : Enumerates r fs entry list) :
      (list.map (fs.inclusionCount r)).sum = ((list.map Path.parts).map count).sum := by
    rw [List.map_map]
    exact congrArg List.sum (List.map_congr_left fun path hpath ↦ hcount (hlist.reached path hpath))
  rw [hsum h, hsum h', ((h.perm_parts h').map count).sum_eq]

end Enumerates

/-! ### The cache holds what inclusions lead to -/

/-- A body comes out only if a template is loaded for everything that the nodes include. -/
theorem Node.exists_of_compileAll_eq_ok {r : Registry} {load : String → Except Error Template}
    {nodes : List Node} {body : Body} (h : compileAll r load nodes = .ok body) {identifier : String}
    (hmem : identifier ∈ loadsOf r nodes) : ∃ t, load identifier = .ok t := by
  let lifted (identifier : String) : Load Template := ofExcept (load identifier)
  let start : Loading := ⟨.empty true, .empty, 0, []⟩
  have hensures : Load.Ensures (fun _ ↦ True) (compileAll r lifted nodes) fun _ ↦
      ∀ identifier ∈ loadsOf r nodes, ∃ t, load identifier = .ok t :=
    ensures_compileAll nodes fun identifier _ ↦ (Load.Ensures.ofExcept _).imp fun t ht ↦ ⟨t, ht⟩
  have hsilent : Load.silent.rel (List.Forall₂ Eq) (compileAll r lifted nodes)
      (compileAll r load nodes) := by
    refine rel_compileAll_of_loads Load.silent (respects_self r) (.refl r) nodes ?_
    intro identifier _ s
    simp only [lifted, Computation.ofExcept_apply]
    exact ⟨trivial, sameOutcome_eq.mpr rfl⟩
  have hout := (hsilent start).2
  rw [h] at hout
  rcases hlifted : compileAll r lifted nodes start with ⟨e | body', after⟩
  · rw [hlifted] at hout
    exact hout.elim
  · exact (hensures.of_eq_ok trivial hlifted).2 identifier hmem

namespace Cache

variable {c : Cache} {r : Registry} {fs : FileSystem} {i j : Identity}

/-- A cache whose templates were made with it holds all that they include. -/
theorem exists_same_of_includes (henabled : c.enabled = true) (hdistinct : c.Distinct)
    (hmade : ∀ t ∈ c.templates, t.Made r fs c)
    (hi : ∃ t ∈ c.templates, t.identity.same i = true) (h : Includes r fs i j) :
    ∃ u ∈ c.templates, u.identity.same j = true := by
  obtain ⟨t, ht, hsame⟩ := hi
  obtain ⟨own, hown, hbuilt⟩ := (hmade t ht).built
  obtain ⟨text, htext, -⟩ := FileSystem.nodesOf_eq_ok.mp hown
  rw [Identity.same_comm] at hsame
  obtain ⟨nodes, identifier, path, hnodes, hmem, hpath, rfl⟩ :=
    h.of_same hsame (FileSystem.holds_of_textOf htext)
  obtain rfl : own = nodes := Except.ok.inj (hown.symm.trans hnodes)
  obtain ⟨u, hu⟩ := Node.exists_of_compileAll_eq_ok (hbuilt c (.refl c) henabled hdistinct) hmem
  rw [loader, hpath] at hu
  change c.fetch (.file path) = .ok u at hu
  unfold fetch at hu
  split at hu
  · next found hfound => exact ⟨found, mem_of_find? hfound⟩
  · cases hu

theorem exists_same_of_reflTransGen (henabled : c.enabled = true) (hdistinct : c.Distinct)
    (hmade : ∀ t ∈ c.templates, t.Made r fs c)
    (hi : ∃ t ∈ c.templates, t.identity.same i = true) (h : ReflTransGen (Includes r fs) i j) :
    ∃ u ∈ c.templates, u.identity.same j = true := by
  induction h with
  | refl => exact hi
  | tail _ hstep ih => exact exists_same_of_includes henabled hdistinct hmade ih hstep

/-- If everything in a cache is reached from an entry that is in it, then the paths of its templates
are the files that inclusions lead to. -/
theorem enumerates {entry : Path} {paths : List Path} (henabled : c.enabled = true)
    (hdistinct : c.Distinct) (hmade : ∀ t ∈ c.templates, t.Made r fs c)
    (hpaths : c.templates.map Template.identity = paths.map .file)
    (hentry : ∃ t ∈ c.templates, t.identity.same (.file entry) = true)
    (hreached : ∀ path ∈ paths, ReflTransGen (Includes r fs) (.file entry) (.file path)) :
    Enumerates r fs entry paths where
  distinct := by
    have hpairs : (c.templates.map Template.identity).Pairwise fun i j ↦ i.same j = false :=
      List.pairwise_map.mpr hdistinct
    rw [hpaths] at hpairs
    exact List.pairwise_map.mp hpairs
  reached := hreached
  complete path hpath := by
    obtain ⟨u, hu, hsame⟩ :=
      exists_same_of_reflTransGen henabled hdistinct hmade hentry hpath
    have hidentity := List.mem_map_of_mem (f := Template.identity) hu
    rw [hpaths] at hidentity
    obtain ⟨p, hp, heq⟩ := List.mem_map.mp hidentity
    rw [← heq] at hsame
    exact ⟨p, hp, hsame⟩

end Cache

namespace Engine

variable {e : Engine} {fs : FileSystem} {identifier : String} {path : Path} {t : Template}

/-- The file of an identifier that is cached is answered with a hit, and nothing else happens. -/
theorem load_of_find? (haccess : e.registry.fileAccess = true)
    (hpath : fs.resolve identifier e.registry.roots = .ok path)
    (henabled : e.cache.enabled = true) (hfind : e.cache.find? (.file path) = some t) :
    e.load fs (.file identifier) =
      (.ok t, { e.loading with cache := { e.cache with hits := e.cache.hits + 1 } }) := by
  change Load.file e.registry fs (fs.size + 2) identifier e.loading = _
  rw [Load.file, if_pos haccess, Computation.bind_apply, hpath, Computation.ofExcept_apply]
  dsimp only
  have hget : e.loading.cache.get (.file path) =
      (some t, { e.cache with hits := e.cache.hits + 1 }) :=
    Cache.get_of_find?_eq_some henabled hfind
  rw [Load.template_apply, hget]

/-- Answers keep the cache in order, and all that it holds. -/
theorem Tidy.served (h : e.Tidy) (fs : FileSystem) (requests : List Request) :
    e.cache.Grows (e.served fs requests).cache ∧ (e.served fs requests).Tidy ∧
      (e.served fs requests).registry = e.registry := by
  induction requests generalizing e with
  | nil => exact ⟨.refl _, h, rfl⟩
  | cons q rest ih =>
    obtain ⟨hgrows, htidy, hregistry⟩ := ih (h.answer fs q)
    exact ⟨(h.follows_answer fs q).grows.trans hgrows, htidy,
      hregistry.trans (e.registry_answer fs q)⟩

/-- A template that is answered for a file without a failure is cached under its path. -/
private theorem find?_of_load (h : e.Tidy) (henabled : e.cache.enabled = true) {after : Loading}
    (hload : e.load fs (.file identifier) = (.ok t, after)) :
    ∃ entry, fs.resolve identifier e.registry.roots = .ok entry ∧
      after.cache.find? (.file entry) = some t := by
  have hfollows := h.follows_load fs (.file identifier)
  rw [hload] at hfollows
  have hfetch := Load.fetching_file (fs.size + 2) after.cache
    (hfollows.grows.enabled.trans henabled) hfollows.distinct identifier e.loading (h.follows fs)
  change _ ∧ _ ∧ ∀ a, (e.load fs (.file identifier)).1 = .ok a → ∃ b, a = b ∧
    ((e.load fs (.file identifier)).2.cache.Grows after.cache → _) at hfetch
  rw [hload] at hfetch
  obtain ⟨_, rfl, hfound⟩ := hfetch.2.2 t rfl
  obtain ⟨entry, hentry, hfetched⟩ := Computation.bind_eq_ok.mp (hfound (.refl _))
  refine ⟨entry, hentry, ?_⟩
  unfold Cache.fetch at hfetched
  split at hfetched
  · next found hfind => rw [hfind, Except.ok.inj hfetched]
  · cases hfetched

/-- What a strict engine with an empty cache has visited when it answers for a file with a template.
-/
private theorem visits_of_load (h : e.Tidy) (hempty : e.cache = .empty true) {after : Loading}
    (hload : e.load fs (.file identifier) = (.ok t, after)) :
    ∃ entry paths, fs.resolve identifier e.registry.roots = .ok entry ∧
      after.cache.find? (.file entry) = some t ∧ Enumerates e.registry fs entry paths ∧
      after.reads.Perm paths ∧ after.cache.templates.map Template.identity = paths.map .file ∧
      after.cache.misses = paths.length ∧
      after.cache.hits + paths.length =
        1 + (paths.map (fs.inclusionCount e.registry)).sum := by
  have henabled : e.cache.enabled = true := by rw [hempty]; rfl
  obtain ⟨entry, hentry, hfind⟩ := find?_of_load h henabled hload
  have hvisits : Load.Visits e.registry fs entry 1
      (Load.file e.registry fs (fs.size + 2) identifier) := by
    refine Load.visits_file _ identifier fun path hpath ↦ ?_
    obtain rfl : entry = path := Except.ok.inj (hentry.symm.trans hpath)
    exact .refl
  obtain ⟨paths, hvisited⟩ := hvisits e.loading t after henabled hload
  obtain ⟨new, hnew, hpaths⟩ := hvisited.cached
  have hidentities : after.cache.templates.map Template.identity = paths.map .file := by
    rw [hnew, ← hpaths, loading, hempty, Cache.empty, List.append_nil]
  have hfollows := h.follows_load fs (.file identifier)
  rw [hload] at hfollows
  have hmade : ∀ u ∈ after.cache.templates, u.Made e.registry fs after.cache := by
    intro u hu
    rcases hfollows.made u hu with hold | ⟨hmade, -⟩
    · rw [loading, hempty] at hold
      cases hold
    · exact hmade
  have hlist : Enumerates e.registry fs entry paths :=
    Cache.enumerates hvisited.enabled hfollows.distinct hmade hidentities
      ⟨t, Cache.mem_of_find? hfind⟩ hvisited.reached
  have hmisses := hvisited.misses
  have hlookups := hvisited.lookups
  rw [loading, hempty] at hmisses hlookups
  refine ⟨entry, paths, hentry, hfind, hlist, ?_, hidentities, ?_, ?_⟩
  · simpa [loading, Loading.reads] using hvisited.reads
  · simpa [Cache.empty] using hmisses
  · simp [Cache.empty] at hmisses hlookups
    omega

/-- A cached template of a file is what the file is answered with from then on. -/
private theorem compileFile_of_stored (h : e.Tidy) (haccess : e.registry.fileAccess = true)
    (hpath : fs.resolve identifier e.registry.roots = .ok path) (ht : t ∈ e.cache.templates)
    (hsame : t.identity.same (.file path) = true) (later : List Request) :
    let e' := e.served fs later
    e'.compileFile fs identifier =
        (.ok t, { e' with cache := { e'.cache with hits := e'.cache.hits + 1 } }) ∧
      (e'.load fs (.file identifier)).2.events = [] := by
  intro e'
  obtain ⟨hgrows, hserved, hregistry⟩ := h.served fs later
  have henabled : e'.cache.enabled = true :=
    Cache.enabled_of_mem hserved.disabled (hgrows.templates ht)
  have hhit := load_of_find? (by rw [hregistry]; exact haccess) (by rw [hregistry]; exact hpath)
    henabled (hserved.distinct.find?_of_mem (hgrows.templates ht) hsame)
  refine ⟨?_, congrArg (fun out ↦ out.2.events) hhit⟩
  change e'.applyPolicy (.unresolved identifier) (e'.load fs (.file identifier)) = _
  rw [hhit]
  rfl

/-- Everything that a file leads to is compiled once. Take a strict engine that was just set up,
with a cache and with files, and an identifier for which it answers with a template. Then the files
that were read are those that inclusions lead to from its file on, and this file, each read once.
The cache has an entry and a miss for each of them, and with these the lookups are one for the
identifier and one for each inclusion in these files. Whatever is asked for later, while no file
changes, an identifier of one of these files is answered with its template that was stored then,
which is one more hit and nothing else. -/
theorem compileFile_visits {serial : Nat} {workingDirectory : Path} {o : Options} {fs : FileSystem}
    {identifier : String} {t : Template} {after : Engine} (hstrict : o.policy = .strict)
    (hcache : o.cache = true) (haccess : o.fileAccess = true)
    (h : (ofOptions serial workingDirectory o).compileFile fs identifier = (.ok t, after)) :
    let e := ofOptions serial workingDirectory o
    let r := e.registry
    ∃ entry, fs.resolve identifier r.roots = .ok entry ∧
      Enumerates r fs entry (e.load fs (.file identifier)).2.reads ∧
      (∀ paths, Enumerates r fs entry paths →
        after.stats.entries = paths.length ∧ after.stats.misses = paths.length ∧
        after.stats.hits + paths.length = 1 + (paths.map (fs.inclusionCount r)).sum) ∧
      ∀ other path p, fs.resolve other r.roots = .ok path →
        ReflTransGen (Includes r fs) (.file entry) (.file p) → p.same path = true →
        ∃ stored, after.cache.find? (.file path) = some stored ∧
          (entry.same path = true → stored = t) ∧
          ∀ later, let e' := after.served fs later
            e'.compileFile fs other =
                (.ok stored, { e' with cache := { e'.cache with hits := e'.cache.hits + 1 } }) ∧
              (e'.load fs (.file other)).2.events = [] := by
  intro e r
  have htidy : e.Tidy := tidy_ofOptions serial workingDirectory o
  have hafter : (e.answer fs (.file identifier)).2 = after := congrArg Prod.snd h
  have htidy' : after.Tidy := hafter ▸ htidy.answer fs (.file identifier)
  have hregistry : after.registry = r := hafter ▸ e.registry_answer fs (.file identifier)
  obtain ⟨s, hload, hstate⟩ : ∃ s, e.load fs (.file identifier) = (.ok t, s) ∧
      after.cache = s.cache := by
    change e.applyPolicy (.unresolved identifier) (e.load fs (.file identifier)) = _ at h
    have hout := applyPolicy_of_strict (e := e) hstrict (.unresolved identifier)
      (e.load fs (.file identifier))
    have hengine :=
      (e.applyPolicy_engine (.unresolved identifier) (e.load fs (.file identifier))).2.1
    rw [h] at hout hengine
    exact ⟨_, Prod.ext hout.symm rfl, hengine⟩
  obtain ⟨entry, paths, hentry, hfind, hlist, hperm, hidentities, hmisses, hlookups⟩ :=
    visits_of_load htidy (congrArg Cache.empty hcache) hload
  rw [hload]
  rw [← hstate] at hfind hidentities hmisses hlookups
  refine ⟨entry, hentry, hlist.of_perm hperm, fun others hothers ↦ ?_, ?_⟩
  · have hsum := hlist.sum_inclusionCount_eq (FileSystem.entry_of_resolve hentry) hothers
    have hentries := congrArg List.length hidentities
    rw [List.length_map, List.length_map] at hentries
    rw [← hlist.length_eq hothers, ← hsum]
    exact ⟨hentries, hmisses, hlookups⟩
  · intro other path p hpath hp hsame
    obtain ⟨q, hq, hsame'⟩ := hlist.complete p hp
    obtain ⟨u, hu, hidentity⟩ : ∃ u ∈ after.cache.templates, u.identity = .file q := by
      rw [← List.mem_map, hidentities]
      exact List.mem_map_of_mem hq
    have husame : u.identity.same (.file path) = true := by
      rw [hidentity]
      exact Identity.same_trans (j := .file p) hsame' hsame
    have hfound := htidy'.distinct.find?_of_mem hu husame
    refine ⟨u, hfound, fun hsamePath ↦ ?_, ?_⟩
    · obtain ⟨ht, htsame⟩ := Cache.mem_of_find? hfind
      have htpath : t.identity.same (.file path) = true :=
        Identity.same_trans (j := .file entry) htsame hsamePath
      rw [htidy'.distinct.find?_of_mem ht htpath] at hfound
      exact (Option.some.inj hfound).symm
    · exact compileFile_of_stored htidy' (by rw [hregistry]; exact haccess)
        (by rw [hregistry]; exact hpath) hu husame

/-- A file that includes another one under two spellings of its path, and a third one that this
other one includes as well. -/
private def sharedFiles : FileSystem :=
  ⟨[], [(["a"], .file ("\x7b% include \"b\" %\x7d\x7b% spaceless %\x7d" ++
      "\x7b% include \"./b\" %\x7d\x7b% include \"c\" %\x7d\x7b% endspaceless %\x7d").toUTF8),
    (["b"], .file "\x7b% include \"c\" %\x7d".toUTF8), (["c"], .file "x".toUTF8)]⟩

/-- Three files with four inclusions in them are three misses and two hits, and one more hit when
the first one is asked for again under another spelling of its path. -/
theorem compileFile_visits_shared :
    let e := ofOptions 0 ⟨"/"⟩ { Options.default with policy := .strict }
    ∃ t after, e.compileFile sharedFiles "a" = (.ok t, after) ∧
      Enumerates e.registry sharedFiles ⟨"/a"⟩ [⟨"/c"⟩, ⟨"/b"⟩, ⟨"/a"⟩] ∧
      after.stats = ⟨2, 3, 3⟩ ∧
      after.compileFile sharedFiles "./a" =
        (.ok t, { after with cache := { after.cache with hits := after.cache.hits + 1 } }) := by
  intro e
  have hok : (e.compileFile sharedFiles "a").1.isOk = true := by decide +kernel
  have hread : (e.load sharedFiles (.file "a")).2.reads = [⟨"/c"⟩, ⟨"/b"⟩, ⟨"/a"⟩] := by
    decide +kernel
  have hcount : ([⟨"/c"⟩, ⟨"/b"⟩, ⟨"/a"⟩].map (sharedFiles.inclusionCount e.registry)).sum = 4 := by
    decide +kernel
  have hpath : sharedFiles.resolve "a" e.registry.roots = .ok ⟨"/a"⟩ := by decide +kernel
  have hpath' : sharedFiles.resolve "./a" e.registry.roots = .ok ⟨"/./a"⟩ := by decide +kernel
  rcases hanswer : e.compileFile sharedFiles "a" with ⟨error | t, after⟩
  · rw [hanswer] at hok
    cases hok
  obtain ⟨entry, hentry, hreads, hstats, hlater⟩ := compileFile_visits rfl rfl rfl hanswer
  obtain rfl : entry = ⟨"/a"⟩ := Except.ok.inj (hentry.symm.trans hpath)
  rw [hread] at hreads
  obtain ⟨hentries, hmisses, hhits⟩ := hstats _ hreads
  rw [hcount] at hhits
  have hthree : [Path.mk "/c", ⟨"/b"⟩, ⟨"/a"⟩].length = 3 := rfl
  rw [hthree] at hentries hmisses hhits
  obtain ⟨stored, -, hstored, hhit⟩ := hlater "./a" ⟨"/./a"⟩ ⟨"/a"⟩ hpath' .refl (by decide)
  rw [hstored (by decide)] at hhit
  refine ⟨t, after, rfl, hreads, ?_, (hhit []).1⟩
  have htwo : after.stats.hits = 2 := by omega
  calc after.stats
    _ = ⟨after.stats.hits, after.stats.misses, after.stats.entries⟩ := rfl
    _ = ⟨2, 3, 3⟩ := by rw [htwo, hmisses, hentries]

end Engine

end Stencil
