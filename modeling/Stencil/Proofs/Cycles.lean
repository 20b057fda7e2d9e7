import Stencil.Proofs.Balance

/-!
# Inclusions that go round

A file is found to be included in itself exactly when inclusions go round below it. A template that
was compiled is the end of all chains of inclusions below it, which stays true of it in the cache; so
a hit hides no cycle. A file on the stack that is entered again closes a cycle, so files that are
included twice are not taken for one.
-/

namespace Stencil

open Relation

/-! ### A body has loaded what its nodes include -/

namespace Load

/-- From a state with an invariant a computation keeps it, and a result has a property. -/
def Ensures {α : Type} (I : Loading → Prop) (x : Load α) (Q : α → Prop) : Prop :=
  (alike I).rel (fun a b ↦ a = b ∧ Q a) x x

namespace Ensures

variable {α β : Type} {I : Loading → Prop} {x : Load α} {f : α → Load β} {P : α → Prop}
  {Q : β → Prop}

theorem pure {a : α} (h : P a) : Ensures I (pure a) P := (alike I).rel_pure ⟨rfl, h⟩

theorem throw (e : Error) : Ensures I (throw e) P := (alike I).rel_throw e

theorem bind (hx : Ensures I x P) (hf : ∀ a, P a → Ensures I (f a) Q) :
    Ensures I (x >>= f) Q := by
  refine (alike I).rel_bind hx ?_
  rintro a _ ⟨rfl, ha⟩
  exact hf a ha

theorem map {g : α → β} (hx : Ensures I x P) (hg : ∀ a, P a → Q (g a)) :
    Ensures I (g <$> x) Q := by
  refine (alike I).rel_map hx ?_
  rintro a _ ⟨rfl, ha⟩
  exact ⟨rfl, hg a ha⟩

theorem imp {R : α → Prop} (hx : Ensures I x P) (h : ∀ a, P a → R a) : Ensures I x R := by
  have hmap := hx.map (g := id) h
  rwa [id_map] at hmap

theorem ofExcept (y : Except Error α) : Ensures I (ofExcept y) (y = .ok ·) := by
  cases y with
  | error e => exact throw e
  | ok a => exact pure rfl

/-- A result has the property, and the invariant holds at the end. -/
theorem of_eq_ok (hx : Ensures I x P) {s after : Loading} {a : α} (hs : I s)
    (h : x s = (.ok a, after)) : I after ∧ P a := by
  obtain ⟨hkept, halike⟩ := hx s hs
  rw [h] at hkept halike
  cases halike with
  | done _ ha => exact ⟨hkept, ha.2⟩

end Ensures

end Load

namespace Node

variable {r : Registry} {load : String → Load Template} {I : Loading → Prop}
  {G : String → Prop}

private theorem ensures_bodyOf (kind : TagKind) {x : Load Body} {P : Prop}
    (h : kind = .block → Load.Ensures I x fun _ ↦ P) :
    Load.Ensures I (bodyOf kind x) fun _ ↦ kind = .block → P := by
  cases kind with
  | block => exact (h rfl).map fun _ hP _ ↦ hP
  | standalone => exact .pure nofun

mutual

private theorem ensures_compile : (node : Node) →
    (∀ identifier ∈ node.loads r, Load.Ensures I (load identifier) fun _ ↦ G identifier) →
    Load.Ensures I (compile r load node) fun _ ↦ ∀ identifier ∈ node.loads r, G identifier
  | .text s, _ => .pure nofun
  | .output e span, _ => by
    rw [compile]
    exact (Load.Ensures.ofExcept _).map fun _ _ ↦ nofun
  | .tag head kind children span, hload => by
    have hchildren := ensures_compileAll children
    simp only [loads] at hload
    simp only [compile, loads]
    cases htag : r.tag? head.name with
    | none => exact .throw _
    | some entry =>
      cases entry with
      | simple handler =>
        have hbody := ensures_bodyOf kind fun hkind ↦
          hchildren (by simpa [htag, hkind] using hload)
        refine (Load.Ensures.ofExcept _).bind fun arguments _ ↦ hbody.bind fun body hP ↦ .pure ?_
        cases kind with
        | block => exact hP rfl
        | standalone => exact nofun
      | raw handler =>
        have hbody := ensures_bodyOf kind fun hkind ↦
          hchildren (by simpa [htag, hkind] using hload)
        refine hbody.bind fun body hP ↦ (Load.Ensures.ofExcept _).imp fun _ _ ↦ ?_
        cases kind with
        | block => exact hP rfl
        | standalone => exact nofun
      | inclusion =>
        cases hliteral : head.literal? with
        | none => exact .throw _
        | some identifier =>
          have hown := hload identifier (by simp [htag, hliteral])
          refine hown.bind fun t ht ↦ .pure ?_
          simpa using ht

/-- If what some nodes include has a property whenever it is loaded, it has this property when a body
comes out: all of it was loaded then. -/
theorem ensures_compileAll : (nodes : List Node) →
    (∀ identifier ∈ loadsOf r nodes, Load.Ensures I (load identifier) fun _ ↦ G identifier) →
    Load.Ensures I (compileAll r load nodes) fun _ ↦
      ∀ identifier ∈ loadsOf r nodes, G identifier
  | [], _ => .pure nofun
  | node :: rest, hload => by
    have hnode := ensures_compile node fun i hi ↦ hload i (List.mem_append_left _ hi)
    have hrest := ensures_compileAll rest fun i hi ↦ hload i (List.mem_append_right _ hi)
    simp only [compileAll]
    refine hnode.bind fun i hi ↦ hrest.bind fun b hb ↦ .pure fun identifier hmem ↦ ?_
    exact (List.mem_append.mp hmem).elim (hi identifier) (hb identifier)

end

end Node

/-! ### What was compiled is grounded -/

/-- If a template that is built for an identity has a property whenever the cached ones have it, then
so has one that is loaded for the identity, and the cached ones keep it. -/
theorem Load.ensures_template {r : Registry} {load : String → Load Template} {identity : Identity}
    {read : Load String} {G : Template → Prop}
    (hbuild : Ensures (fun s ↦ ∀ t ∈ s.cache.templates, G t) (read >>= build r load identity)
      fun t ↦ t.identity.same identity = true ∧ G t) :
    Ensures (fun s ↦ ∀ t ∈ s.cache.templates, G t) (template r load identity read)
      fun t ↦ t.identity.same identity = true ∧ G t := by
  have hcache (s : Loading) : (s.cache.get identity).2.templates = s.cache.templates :=
    Cache.templates_get s.cache identity
  refine alike_template (J := fun s ↦ ∀ t ∈ s.cache.templates, G t) ?hit ?miss hbuild
    (fun s hs ↦ hs) ?store
  case hit =>
    intro s t cache hs hget
    have htemplates := hcache s
    rcases Cache.get_cases s.cache identity with ⟨u, found, hfound, -, hu, hsame⟩ | ⟨_, hnone, -⟩
    · rw [hget] at htemplates hfound
      cases hfound
      exact ⟨fun v hv ↦ hs v (htemplates ▸ hv), hsame, hs t hu⟩
    · rw [hget] at hnone
      cases hnone
  case miss =>
    intro s cache hs hget
    have htemplates := hcache s
    rw [hget] at htemplates
    have hkept : ∀ v ∈ cache.templates, G v := fun v hv ↦ hs v (htemplates ▸ hv)
    exact ⟨hkept, fun _ _ ↦ hkept⟩
  case store =>
    rintro s t hs ⟨hsame, hgood⟩
    have hkept : ∀ v ∈ (s.cache.insert t).2.templates, G v := by
      intro v hv
      rcases Cache.mem_of_mem_insert hv with rfl | hold
      · exact hgood
      · exact hs v hold
    refine ⟨?_, hkept⟩
    cases henabled : s.cache.enabled with
    | true =>
      obtain ⟨hmem, hstored⟩ := Cache.mem_insert henabled t
      exact ⟨Identity.same_trans hstored hsame, hkept _ hmem⟩
    | false =>
      rw [Cache.insert_of_not_enabled henabled]
      exact ⟨hsame, hgood⟩

/-- Every cached template is one below which all chains of inclusions come to an end. -/
def Cache.AllGrounded (r : Registry) (fs : FileSystem) (c : Cache) : Prop :=
  ∀ t ∈ c.templates, fs.Holds t.identity ∧ Grounded r fs t.identity

namespace Load

variable {r : Registry} {fs : FileSystem} {load : String → Load Template} {identity : Identity}
  {identifier : String}

private theorem grounded_build {read : Load String}
    (hread : Ensures (·.cache.AllGrounded r fs) read (fs.textOf identity = .ok ·))
    (hload : ∀ identifier, Ensures (·.cache.AllGrounded r fs) (load identifier) fun _ ↦
      ∀ path, fs.resolve identifier r.roots = .ok path → Grounded r fs (.file path)) :
    Ensures (·.cache.AllGrounded r fs) (read >>= build r load identity) fun t ↦
      t.identity.same identity = true ∧ fs.Holds t.identity ∧ Grounded r fs t.identity := by
  refine hread.bind fun text htext ↦ (Ensures.ofExcept _).bind fun nodes hnodes ↦ ?_
  refine (Node.ensures_compileAll nodes fun identifier _ ↦ hload identifier).bind ?_
  intro body hincluded s hs
  have hown := FileSystem.nodesOf_eq_ok.mpr ⟨text, htext, hnodes⟩
  exact ⟨hs, .done _ ⟨rfl, Identity.same_self identity, FileSystem.holds_of_textOf htext,
    .of_forall hown hincluded⟩⟩

/-- A template that is loaded is grounded: a cached one is, and any other one has just loaded
everything that it includes. -/
private theorem grounded_template {read : Load String}
    (hread : Ensures (·.cache.AllGrounded r fs) read (fs.textOf identity = .ok ·))
    (hload : ∀ identifier, Ensures (·.cache.AllGrounded r fs) (load identifier) fun _ ↦
      ∀ path, fs.resolve identifier r.roots = .ok path → Grounded r fs (.file path)) :
    Ensures (·.cache.AllGrounded r fs) (template r load identity read) fun _ ↦
      Grounded r fs identity := by
  refine (ensures_template (grounded_build hread hload)).imp ?_
  rintro t ⟨hsame, hholds, hgrounded⟩
  exact hgrounded.of_same hsame hholds

private theorem grounded_file (depth : Nat) (identifier : String) :
    Ensures (·.cache.AllGrounded r fs) (file r fs depth identifier) fun _ ↦
      ∀ path, fs.resolve identifier r.roots = .ok path → Grounded r fs (.file path) := by
  induction depth generalizing identifier with
  | zero => exact .throw _
  | succ depth ih =>
    change Ensures _ (fileWith r fs _ identifier) _
    unfold fileWith
    split
    · refine (Ensures.ofExcept _).bind fun path hpath ↦ ?_
      have hread : Ensures (·.cache.AllGrounded r fs) (readText fs path)
          (fs.textOf (.file path) = .ok ·) := alike_readText path fun _ hs ↦ hs
      refine (grounded_template hread ih).imp fun _ hgrounded other hother ↦ ?_
      cases hpath.symm.trans hother
      exact hgrounded
    · exact .throw _

private theorem grounded_request (q : Request) :
    Ensures (·.cache.AllGrounded r fs) (request r (file r fs (fs.size + 2)) q) fun _ ↦ True := by
  cases q with
  | text source => exact (grounded_template (.pure rfl) (grounded_file _)).imp fun _ _ ↦ trivial
  | file identifier => exact (grounded_file _ identifier).imp fun _ _ ↦ trivial

end Load

/-! ### Only cycles are in the way -/

/-- Some nodes compile with every loader that never fails. -/
def Node.CompilesApart (r : Registry) (nodes : List Node) : Prop :=
  ∀ load : String → Load Template, (∀ identifier s, ∃ t, (load identifier s).1 = .ok t) →
    ∀ s, ∃ body, (compileAll r load nodes s).1 = .ok body

/-- The text behind an identity is read and parsed, all that it includes is found, and it compiles
apart from the loading of what it includes. -/
def Compilable (r : Registry) (fs : FileSystem) (i : Identity) : Prop :=
  ∃ nodes, fs.nodesOf r i = .ok nodes ∧
    (∀ identifier ∈ Node.loadsOf r nodes, ∃ path, fs.resolve identifier r.roots = .ok path) ∧
    Node.CompilesApart r nodes

namespace Load

variable {r : Registry} {fs : FileSystem} {load : String → Load Template} {identity start : Identity}
  {identifier : String} {stack : IncludeStack} {nodes : List Node} {excused : Error → Prop}

/-- The loader that gives some template wherever another one fails. -/
def settle (r : Registry) (load : String → Load Template) (identifier : String) :
    Load Template := fun s ↦
  match load identifier s with
  | (.ok t, after) => (.ok t, after)
  | (.error e, after) => (.ok (.fallback (.unresolved identifier) 0 r e), after)

/-- Nodes that compile apart from the loading of what they include fail only as that fails. -/
private theorem excused_compileAll (hcompiles : Node.CompilesApart r nodes)
    (hload : ∀ identifier ∈ Node.loadsOf r nodes, ∀ s : Loading, s.stack = stack →
      (load identifier s).2.stack = stack ∧ ∀ e, (load identifier s).1 = .error e → excused e)
    {s : Loading} (hs : s.stack = stack) {e : Error}
    (h : (Node.compileAll r load nodes s).1 = .error e) : excused e := by
  have hsettle (identifier : String) (hmem : identifier ∈ Node.loadsOf r nodes) :
      (keeping (·.stack = stack) excused).rel Eq (load identifier)
        (settle r load identifier) := by
    intro s hs
    obtain ⟨hstack, hfails⟩ := hload identifier hmem s hs
    refine ⟨hstack, ?_⟩
    unfold settle
    generalize load identifier s = out at *
    rcases out with ⟨e | t, after⟩
    · exact .excuse (hfails e rfl)
    · exact .done after rfl
  obtain ⟨-, halike⟩ :=
    Node.rel_compileAll_of_loads (keeping _ excused) (respects_self r) (.refl r) nodes hsettle s hs
  obtain ⟨body, hbody⟩ := hcompiles (settle r load) (by
    intro identifier s
    unfold settle
    split <;> exact ⟨_, rfl⟩) s
  generalize Node.compileAll r load nodes s = out, Node.compileAll r (settle r load) nodes s = out'
    at *
  cases halike with
  | excuse he =>
    cases h
    exact he
  | failed e after => cases hbody
  | done after hab => cases h

/-- Below templates that lead to it, a file whose text compiles fails only because it is on the stack
already, which closes a cycle, or as the files fail that it includes. -/
private theorem circular_template {path : Path} (hcompilable : Compilable r fs (.file path))
    (hstack : ∀ i ∈ stack.identities, ReflTransGen (Includes r fs) start i ∧
      TransGen (Includes r fs) i (.file path))
    (hload : ∀ inner text nodes, stack.enter (.file path) = .ok inner →
      fs.textOf (.file path) = .ok text → Node.parse r.tagKind? text = .ok nodes →
      ∀ identifier ∈ Node.loadsOf r nodes, ∀ s : Loading, s.stack = inner →
        (load identifier s).2.stack = inner ∧ ∀ e, (load identifier s).1 = .error e →
          (∃ x, e = .circularInclude x) ∧ Cyclic r fs start)
    {s : Loading} (hs : s.stack = stack) {e : Error}
    (h : (template r load (.file path) (readText fs path) s).1 = .error e) :
    (∃ x, e = .circularInclude x) ∧ Cyclic r fs start := by
  rcases error_of_template h with henter | ⟨inner, henter, hbuild⟩ <;> rw [hs] at henter
  · obtain ⟨hcontains, rfl⟩ := IncludeStack.enter_eq_error henter
    obtain ⟨i, hi, hsame⟩ := List.any_eq_true.mp hcontains
    exact ⟨⟨_, rfl⟩, i, .file path, (hstack i hi).1, (hstack i hi).2, hsame⟩
  · obtain ⟨nodes, hnodes, -, hcompiles⟩ := hcompilable
    obtain ⟨text, htext, hparse⟩ := FileSystem.nodesOf_eq_ok.mp hnodes
    have hread : readText fs path inner =
        (.ok text, { inner with events := .read path :: inner.events }) := by
      rw [readText_apply, htext]
    refine excused_compileAll hcompiles (hload _ text nodes henter htext hparse) rfl
      (s := { inner with events := .read path :: inner.events }) ?_
    unfold build at hbuild
    simp only [Computation.bind_apply, hread, Computation.ofExcept_apply, hparse] at hbuild
    split at hbuild
    · cases hbuild
    · next hbody =>
      cases hbuild
      rw [hbody]

/-- A file below templates that lead to it fails only where inclusions go round, if the depth
suffices for all that it includes. -/
private theorem circular_within (haccess : r.fileAccess = true)
    (hcompilable : ∀ i, ReflTransGen (Includes r fs) start i → Compilable r fs i) {path : Path}
    (depth : Nat) (hreached : ReflTransGen (Includes r fs) start (.file path))
    (hstack : ∀ i ∈ stack.identities, ReflTransGen (Includes r fs) start i ∧
      TransGen (Includes r fs) i (.file path))
    (hsuffices : ∀ inner text nodes, stack.enter (.file path) = .ok inner →
      fs.readText path = .ok text → Node.parse r.tagKind? text = .ok nodes →
      ∀ identifier ∈ Node.literalsOf nodes, fs.Suffices r inner identifier depth)
    {s : Loading} (hs : s.stack = stack) {e : Error}
    (h : (template r (file r fs depth) (.file path) (readText fs path) s).1 = .error e) :
    (∃ x, e = .circularInclude x) ∧ Cyclic r fs start := by
  induction depth using Nat.strong_induction_on generalizing path stack s e with
  | _ depth ih =>
    obtain ⟨own, hown, hfound, -⟩ := hcompilable _ hreached
    refine circular_template (hcompilable _ hreached) hstack ?_ hs h
    intro inner text nodes hinner htext hparse identifier hmem s' hs'
    have hnodes := FileSystem.nodesOf_eq_ok.mpr ⟨text, htext, hparse⟩
    cases hnodes.symm.trans hown
    have hread : fs.readText path = .ok text := Computation.mapError_eq_ok.mp htext
    have hdepth := hsuffices inner text own hinner hread hparse identifier
      (Node.mem_literalsOf_of_mem_loadsOf hmem)
    subst hs'
    refine ⟨stack_file hdepth, fun e' he' ↦ ?_⟩
    cases depth with
    | zero => exact (FileSystem.not_suffices_zero hdepth).elim
    | succ depth =>
      obtain ⟨next, hnext⟩ := hfound identifier hmem
      have hstep : Includes r fs (.file path) (.file next) :=
        ⟨own, identifier, next, hnodes, hmem, hnext, rfl⟩
      rw [file, if_pos haccess, Computation.bind_apply, hnext, Computation.ofExcept_apply] at he'
      refine ih depth (Nat.lt_succ_self depth) (hreached.tail hstep) ?_ ?_ rfl he'
      · obtain ⟨-, hidentities⟩ := IncludeStack.enter_eq_ok.mp hinner
        rw [hidentities]
        refine List.forall_mem_cons.mpr ⟨⟨hreached, .single hstep⟩, fun i hi ↦ ?_⟩
        exact ⟨(hstack i hi).1, (hstack i hi).2.tail hstep⟩
      · intro _ _ _ henter htext' hparse' _
        exact hdepth.of_enter hnext henter htext' hparse'

end Load

/-! ### Engines -/

namespace Engine

variable {r : Registry} {fs : FileSystem} {e : Engine}

/-- A strict engine answers what loading ends with. -/
theorem applyPolicy_of_strict (hstrict : e.registry.policy = .strict) (identity : Identity)
    (out : Except Error Template × Loading) : (e.applyPolicy identity out).1 = out.1 := by
  rcases out with ⟨error | t, s⟩
  · simp [applyPolicy, hstrict, Policy.isStrict]
  · rfl

private theorem allGrounded_answer (he : e.registry = r) (hcache : e.cache.AllGrounded r fs)
    (q : Request) : (e.answer fs q).2.registry = r ∧ (e.answer fs q).2.cache.AllGrounded r fs := by
  subst he
  obtain ⟨hregistry, hafter, -⟩ := e.applyPolicy_engine q.identity (e.load fs q)
  rw [← e.answer_eq] at hregistry hafter
  rw [hafter]
  exact ⟨hregistry, (Load.grounded_request q e.loading hcache).1⟩

theorem allGrounded_served (he : e.registry = r) (hcache : e.cache.AllGrounded r fs)
    (requests : List Request) :
    (e.served fs requests).registry = r ∧ (e.served fs requests).cache.AllGrounded r fs := by
  induction requests generalizing e with
  | nil => exact ⟨he, hcache⟩
  | cons q rest ih =>
    obtain ⟨hnext, hcache'⟩ := allGrounded_answer he hcache q
    exact ih hnext hcache'

/-- Inclusions are found to be circular exactly when they are: a strict engine that has answered
whatever requests before answers the request for a file with this failure if inclusions go round
below the file, and with a template if they do not, provided that everything else about the files
that it leads to is in order. -/
theorem compileFile_circular_iff {serial : Nat} {workingDirectory : Path} {o : Options}
    {requests : List Request}
    (he : e = (ofOptions serial workingDirectory o).served fs requests)
    (hstrict : e.registry.policy = .strict) (haccess : e.registry.fileAccess = true)
    {identifier : String} {path : Path}
    (hpath : fs.resolve identifier e.registry.roots = .ok path)
    (hcompilable : ∀ i, ReflTransGen (Includes e.registry fs) (.file path) i →
      Compilable e.registry fs i) :
    ((∃ x, (e.compileFile fs identifier).1 = .error (.circularInclude x)) ↔
      Cyclic e.registry fs (.file path)) ∧
    (¬Cyclic e.registry fs (.file path) → ∃ t, (e.compileFile fs identifier).1 = .ok t) := by
  have hempty : (ofOptions serial workingDirectory o).cache.AllGrounded
      (Registry.ofOptions serial workingDirectory o) fs := fun _ ht ↦ nomatch ht
  obtain ⟨hregistry, hcache⟩ := allGrounded_served rfl hempty requests
  rw [← he] at hregistry hcache
  rw [← hregistry] at hcache
  have hanswer : (e.compileFile fs identifier).1 =
      (e.run (Load.file e.registry fs (fs.size + 2) identifier)).1 :=
    applyPolicy_of_strict hstrict _ _
  have hload : e.run (Load.file e.registry fs (fs.size + 2) identifier) =
      Load.template e.registry (Load.file e.registry fs (fs.size + 1)) (.file path)
        (Load.readText fs path) e.loading := by
    change Load.file e.registry fs (fs.size + 1 + 1) identifier _ = _
    rw [Load.file, if_pos haccess, Computation.bind_apply, hpath, Computation.ofExcept_apply]
    rfl
  rw [hanswer]
  rcases hrun : e.run (Load.file e.registry fs (fs.size + 2) identifier) with ⟨error | t, after⟩
  · have hsuffices : fs.Suffices e.registry .empty identifier (fs.size + 1 + 1) :=
      .inl (Nat.le_refl _)
    have hnone (i : Identity) (hi : i ∈ IncludeStack.empty.identities) : False :=
      List.not_mem_nil hi
    obtain ⟨⟨x, rfl⟩, hcyclic⟩ := Load.circular_within haccess hcompilable (fs.size + 1) .refl
      (fun i hi ↦ (hnone i hi).elim)
      (fun _ _ _ henter htext hparse _ ↦ hsuffices.of_enter hpath henter htext hparse) rfl
      (congrArg Prod.fst (hload.symm.trans hrun))
    exact ⟨⟨fun _ ↦ hcyclic, fun _ ↦ ⟨x, rfl⟩⟩, fun hnot ↦ (hnot hcyclic).elim⟩
  · have hgrounded := ((Load.grounded_file (fs.size + 2) identifier).of_eq_ok hcache hrun).2 path
      hpath
    exact ⟨⟨nofun, fun hcyclic ↦ (hgrounded.not_cyclic hcyclic).elim⟩, fun _ ↦ ⟨t, rfl⟩⟩

end Engine

/-! ### A file that includes itself -/

/-- Whether a node is literal text or an inclusion. -/
def Node.isPlain (r : Registry) : Node → Bool
  | .text _ => true
  | .output .. => false
  | .tag head _ _ _ =>
    match r.tag? head.name with
    | some .inclusion => head.literal?.isSome
    | _ => false

/-- Literal texts and inclusions compile apart from the loading of what is included. -/
theorem Node.compilesApart_of_isPlain {r : Registry} {nodes : List Node}
    (h : nodes.all (isPlain r) = true) : CompilesApart r nodes := by
  intro load hload
  have hnode (node : Node) (hplain : node.isPlain r = true) (s : Loading) :
      ∃ i after, compile r load node s = (.ok i, after) := by
    unfold isPlain at hplain
    split at hplain
    · exact ⟨_, _, rfl⟩
    · cases hplain
    · next head kind children span =>
      split at hplain
      · next htag =>
        obtain ⟨identifier, hliteral⟩ := Option.isSome_iff_exists.mp hplain
        obtain ⟨t, ht⟩ := hload identifier s
        rcases hout : load identifier s with ⟨out, after⟩
        rw [hout] at ht
        cases ht
        exact ⟨.included t.identity t.serial t.body, after, by
          simp [compile, htag, hliteral, hout]⟩
      · cases hplain
  induction nodes with
  | nil => exact fun s ↦ ⟨[], rfl⟩
  | cons node rest ih =>
    rw [List.all_cons, Bool.and_eq_true] at h
    intro s
    obtain ⟨i, after, hi⟩ := hnode node h.1 s
    obtain ⟨body, hbody⟩ := ih h.2 after
    rcases hout : compileAll r load rest after with ⟨out, last⟩
    rw [hout] at hbody
    cases hbody
    exact ⟨i :: body, by simp [compileAll, hi, hout]⟩

/-- A file that includes itself under another spelling of its path. -/
def FileSystem.selfInclusion : FileSystem :=
  ⟨[], [(["a"], .file "a\x7b% include \".//a\" %\x7d".toUTF8)]⟩

/-- The strict engine on which the file is asked for. -/
def Engine.strictDefault : Engine :=
  .ofOptions 0 ⟨"/"⟩ { Options.default with policy := .strict }

private theorem nodesOf_selfInclusion {i : Identity}
    (hi : i = .file ⟨"/a"⟩ ∨ i = .file ⟨"/.//a"⟩) :
    ∃ nodes, FileSystem.selfInclusion.nodesOf Engine.strictDefault.registry i = .ok nodes ∧
      nodes.all (Node.isPlain Engine.strictDefault.registry) = true ∧
      Node.loadsOf Engine.strictDefault.registry nodes = [".//a"] := by
  have hcheck : ((FileSystem.selfInclusion.nodesOf Engine.strictDefault.registry i).toOption.any
      fun nodes ↦ nodes.all (Node.isPlain Engine.strictDefault.registry) &&
        Node.loadsOf Engine.strictDefault.registry nodes == [".//a"]) = true := by
    rcases hi with rfl | rfl <;> decide +kernel
  cases hnodes : FileSystem.selfInclusion.nodesOf Engine.strictDefault.registry i with
  | error e =>
    rw [hnodes] at hcheck
    cases hcheck
  | ok nodes =>
    rw [hnodes] at hcheck
    simpa [Except.toOption] using hcheck

private theorem resolve_selfInclusion :
    FileSystem.selfInclusion.resolve "a" Engine.strictDefault.registry.roots = .ok ⟨"/a"⟩ ∧
      FileSystem.selfInclusion.resolve ".//a" Engine.strictDefault.registry.roots =
        .ok ⟨"/.//a"⟩ := by
  decide +kernel

private theorem includes_selfInclusion {i j : Identity}
    (hi : i = .file ⟨"/a"⟩ ∨ i = .file ⟨"/.//a"⟩) :
    Includes Engine.strictDefault.registry .selfInclusion i j ↔ j = .file ⟨"/.//a"⟩ := by
  obtain ⟨nodes, hnodes, -, hloads⟩ := nodesOf_selfInclusion hi
  constructor
  · rintro ⟨nodes', identifier, path, hnodes', hmem, hpath, rfl⟩
    cases hnodes.symm.trans hnodes'
    rw [hloads, List.mem_singleton] at hmem
    subst hmem
    cases resolve_selfInclusion.2.symm.trans hpath
    rfl
  · rintro rfl
    exact ⟨nodes, ".//a", ⟨"/.//a"⟩, hnodes, by simp [hloads], resolve_selfInclusion.2, rfl⟩

/-- The file is found to include itself in spite of the other spelling, also when it was asked for
before. -/
theorem Engine.compileFile_selfInclusion :
    Cyclic strictDefault.registry .selfInclusion (.file ⟨"/a"⟩) ∧
      ∃ x, ((strictDefault.served .selfInclusion [.file "a"]).compileFile .selfInclusion "a").1 =
        .error (.circularInclude x) := by
  have hreached {i : Identity} (hi : ReflTransGen (Includes strictDefault.registry .selfInclusion)
      (.file ⟨"/a"⟩) i) : i = .file ⟨"/a"⟩ ∨ i = .file ⟨"/.//a"⟩ := by
    induction hi with
    | refl => exact .inl rfl
    | tail _ hstep ih => exact .inr ((includes_selfInclusion ih).mp hstep)
  have hcyclic : Cyclic strictDefault.registry .selfInclusion (.file ⟨"/a"⟩) :=
    ⟨.file ⟨"/a"⟩, .file ⟨"/.//a"⟩, .refl, .single ((includes_selfInclusion (hreached .refl)).mpr
      rfl), by decide +kernel⟩
  have hcompilable (i : Identity) (hi : ReflTransGen
      (Includes strictDefault.registry .selfInclusion) (.file ⟨"/a"⟩) i) :
      Compilable strictDefault.registry .selfInclusion i := by
    obtain ⟨nodes, hnodes, hplain, hloads⟩ := nodesOf_selfInclusion (hreached hi)
    refine ⟨nodes, hnodes, fun identifier hmem ↦ ?_, Node.compilesApart_of_isPlain hplain⟩
    rw [hloads, List.mem_singleton] at hmem
    rw [hmem]
    exact ⟨_, resolve_selfInclusion.2⟩
  have hpath := resolve_selfInclusion.1
  have hstrict : strictDefault.registry.policy = .strict := rfl
  have haccess : strictDefault.registry.fileAccess = true := rfl
  have hregistry : (strictDefault.served .selfInclusion [.file "a"]).registry =
      strictDefault.registry :=
    (allGrounded_served (r := strictDefault.registry) rfl (fun _ ht ↦ nomatch ht) _).1
  have he : strictDefault.served .selfInclusion [.file "a"] =
      (ofOptions 0 ⟨"/"⟩ { Options.default with policy := .strict }).served .selfInclusion
        [.file "a"] := by
    rw [strictDefault]
  refine ⟨hcyclic, ?_⟩
  rw [← hregistry] at hcyclic hcompilable hpath hstrict haccess
  generalize strictDefault.served .selfInclusion [.file "a"] = e at *
  exact (compileFile_circular_iff he hstrict haccess hpath hcompilable).1.mpr hcyclic

end Stencil
