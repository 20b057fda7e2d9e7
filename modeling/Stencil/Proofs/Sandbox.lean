import Stencil.Proofs.Grammar
import Stencil.Proofs.Sources

/-!
# Without access to files

An engine without access to files refuses in one place, where a file is to be loaded. All that it
answers is therefore the same whatever files there are; and since the refusal is an error under
either policy, a text that includes something is never compiled: it fails, with the refusal or with
an error that was met before.
-/

namespace Stencil

/-- Whether a tag puts another template in place. -/
def TagEntry.isInclusion : TagEntry → Bool
  | .inclusion => true
  | _ => false

/-! ### Nodes -/

namespace Node

/-- None of the tags in some nodes, at any depth, puts another template in place. -/
def IncludesNothing (r : Registry) (nodes : List Node) : Prop :=
  ∀ head ∈ headsOf nodes, r.tag? head.name ≠ some .inclusion

/-- The answer to every inclusion where files cannot be reached. -/
def refuse (_ : String) : Except Error Template := throw .filesUnavailable

/-- What some nodes are compiled to where every inclusion is refused. -/
def compileRefusing (r : Registry) (nodes : List Node) : Except Error Body :=
  compileAll r refuse nodes

variable {r : Registry} {nodes : List Node} {node : Node}

theorem compileRefusing_cons {body : Body} (h : compileRefusing r (node :: nodes) = .ok body) :
    (∃ i, compile r refuse node = .ok i) ∧ ∃ rest, compileRefusing r nodes = .ok rest := by
  unfold compileRefusing at h
  rw [compileAll] at h
  obtain ⟨i, hi, h⟩ := Computation.bind_eq_ok.mp h
  obtain ⟨rest, hrest, -⟩ := Computation.bind_eq_ok.mp h
  exact ⟨⟨i, hi⟩, rest, hrest⟩

/-- A tag that is compiled where every inclusion is refused is no inclusion, and if it is a block then
its body is compiled so, too. -/
theorem compileRefusing_tag {head : TagHead} {kind : TagKind} {children : List Node} {span : Span}
    {i : Instruction} (h : compile r refuse (.tag head kind children span) = .ok i) :
    r.tag? head.name ≠ some .inclusion ∧
      (kind = .block → ∃ body, compileRefusing r children = .ok body) := by
  have hbody {x : Except Error Body} {body : Option Body} (hx : bodyOf kind x = .ok body)
      (hkind : kind = .block) : ∃ body, x = .ok body := by
    subst hkind
    obtain ⟨b, hb, -⟩ := Computation.map_eq_ok.mp hx
    exact ⟨b, hb⟩
  rw [compile] at h
  cases htag : r.tag? head.name with
  | none =>
    rw [htag] at h
    cases h
  | some entry =>
    rw [htag] at h
    cases entry with
    | simple handler =>
      obtain ⟨arguments, -, h⟩ := Computation.bind_eq_ok.mp h
      obtain ⟨body, hchildren, -⟩ := Computation.bind_eq_ok.mp h
      exact ⟨nofun, hbody hchildren⟩
    | raw handler =>
      obtain ⟨body, hchildren, -⟩ := Computation.bind_eq_ok.mp h
      exact ⟨nofun, hbody hchildren⟩
    | inclusion =>
      cases hliteral : head.literal? with
      | none =>
        simp only [hliteral] at h
        cases h
      | some identifier =>
        simp only [hliteral] at h
        cases h

/-- Parsed nodes that are compiled where every inclusion is refused include nothing. -/
theorem includesNothing_of_derives {tokens : List Placed} (h : Derives r.tagKind? tokens nodes)
    {body : Body} (hbody : compileRefusing r nodes = .ok body) : IncludesNothing r nodes := by
  induction h generalizing body with
  | nil => nofun
  | text _ ih =>
    obtain ⟨-, rest, hrest⟩ := compileRefusing_cons hbody
    exact ih hrest
  | output _ _ _ _ _ ih =>
    obtain ⟨-, rest, hrest⟩ := compileRefusing_cons hbody
    exact ih hrest
  | standalone _ _ _ _ _ _ ih =>
    obtain ⟨⟨i, hi⟩, rest, hrest⟩ := compileRefusing_cons hbody
    intro head hhead
    rcases List.mem_cons.mp hhead with rfl | hhead
    · exact (compileRefusing_tag hi).1
    · exact ih hrest head hhead
  | block _ _ _ _ _ _ _ _ _ _ _ _ ihbody ih =>
    obtain ⟨⟨i, hi⟩, rest, hrest⟩ := compileRefusing_cons hbody
    obtain ⟨hown, hchildren⟩ := compileRefusing_tag hi
    obtain ⟨within, hwithin⟩ := hchildren rfl
    intro head hhead
    rw [headsOf, heads, List.cons_append] at hhead
    rcases List.mem_cons.mp hhead with rfl | hhead
    · exact hown
    · rcases List.mem_append.mp hhead with hhead | hhead
      · exact ihbody hwithin head hhead
      · exact ih hrest head hhead

end Node

/-! ### Loading -/

namespace Load

/-- What comes out without a state comes out from every state, which is left as it is; but an error
may be excused. -/
def lifting (excused : Error → Prop) : Comparison (Except Error) Load where
  rel P x y := match x with
    | .ok a => ∃ b, P a b ∧ ∀ s, y s = (.ok b, s)
    | .error e => excused e ∨ ∀ s, y s = (.error e, s)
  rel_pure h := ⟨_, h, fun _ ↦ rfl⟩
  rel_throw _ := .inr fun _ ↦ rfl
  rel_bind := by
    intro _ _ _ _ P Q x y f g hxy hfg
    cases x with
    | error e =>
      refine hxy.imp_right fun hy s ↦ ?_
      rw [Computation.bind_apply, hy]
    | ok a =>
      obtain ⟨b, hab, hy⟩ := hxy
      have hstep : y >>= g = g b := by
        funext s
        rw [Computation.bind_apply, hy]
      rw [hstep]
      exact hfg a b hab
  rel_map := by
    intro _ _ _ _ P Q x y f g hxy hfg
    cases x with
    | error e =>
      refine hxy.imp_right fun hy s ↦ ?_
      rw [Computation.map_apply, hy]
    | ok a =>
      obtain ⟨b, hab, hy⟩ := hxy
      refine ⟨g b, hfg a b hab, fun s ↦ ?_⟩
      rw [Computation.map_apply, hy]

/-- The loader without access to files. -/
def refused (_ : String) : Load Template := throw .filesUnavailable

variable {r : Registry} {nodes : List Node}

theorem file_eq_refused (h : r.fileAccess = false) (fs : FileSystem) (depth : Nat) :
    file r fs (depth + 1) = refused := by
  funext identifier
  rw [file, h]
  rfl

/-- Nodes are compiled with the loader that refuses as they are without a state. -/
theorem compileAll_refused (r : Registry) (nodes : List Node) (s : Loading) :
    Node.compileAll r refused nodes s = (Node.compileRefusing r nodes, s) := by
  have hload (identifier : String) (_ : identifier ∈ Node.loadsOf r nodes) :
      (lifting fun _ ↦ False).rel Eq (Node.refuse identifier) (refused identifier) :=
    (lifting fun _ ↦ False).rel_throw .filesUnavailable
  have hrel := Node.rel_compileAll_of_loads _ (respects_self r) (.refl r) nodes hload
  unfold Node.compileRefusing
  cases hx : Node.compileAll r Node.refuse nodes with
  | error e =>
    rw [hx] at hrel
    exact (hrel.resolve_left id) s
  | ok body =>
    rw [hx] at hrel
    obtain ⟨_, heq, hy⟩ := hrel
    rw [List.forall₂_eq_eq_eq] at heq
    subst heq
    exact hy s

/-- An error that is no refusal is met with every loader, and before anything is loaded. -/
theorem compileAll_of_error {e : Error} (h : Node.compileRefusing r nodes = .error e)
    (he : e ≠ .filesUnavailable) (load : String → Load Template) (s : Loading) :
    Node.compileAll r load nodes s = (.error e, s) := by
  have hload (identifier : String) (_ : identifier ∈ Node.loadsOf r nodes) :
      (lifting (· = .filesUnavailable)).rel Eq (Node.refuse identifier) (load identifier) :=
    .inl rfl
  have hrel := Node.rel_compileAll_of_loads _ (respects_self r) (.refl r) nodes hload
  unfold Node.compileRefusing at h
  rw [h] at hrel
  exact (hrel.resolve_left he) s

end Load

/-! ### Engines -/

/-- A template is the one of a text that includes nothing. -/
def Template.IsClosed (r : Registry) (t : Template) : Prop :=
  ∃ source nodes, t.identity = .source source ∧ Node.parse r.tagKind? source = .ok nodes ∧
    Node.IncludesNothing r nodes

/-- Every cached template is the one of a text that includes nothing. -/
def Cache.Closed (r : Registry) (c : Cache) : Prop := ∀ t ∈ c.templates, t.IsClosed r

theorem Template.IsClosed.includesNothing {r : Registry} {t : Template} (h : t.IsClosed r)
    {source : String} (hsame : t.identity.same (.source source) = true) {nodes : List Node}
    (hnodes : Node.parse r.tagKind? source = .ok nodes) : Node.IncludesNothing r nodes := by
  obtain ⟨other, nodes', hidentity, hnodes', hnothing⟩ := h
  rw [hidentity] at hsame
  obtain rfl : other = source := by simpa [Identity.same] using hsame
  cases hnodes.symm.trans hnodes'
  exact hnothing

namespace Load

/-- A text that is compiled with the loader that refuses includes nothing. -/
theorem closed_template (r : Registry) (source : String) :
    Ensures (·.cache.Closed r) (template r refused (.source source) (pure source))
      fun t ↦ t.identity.same (.source source) = true ∧ t.IsClosed r := by
  refine ensures_template (G := fun t ↦ t.IsClosed r) ?_
  refine (Ensures.pure (P := (source = ·)) rfl).bind ?_
  rintro _ rfl
  refine (Ensures.ofExcept _).bind fun nodes hnodes ↦ ?_
  have hbody : Ensures (fun s ↦ ∀ t ∈ s.cache.templates, t.IsClosed r)
      (Node.compileAll r refused nodes) fun _ ↦ Node.IncludesNothing r nodes := by
    refine ensures_iff.mpr fun s hs ↦ ?_
    rw [compileAll_refused]
    obtain ⟨tokens, -, hwalk⟩ := Computation.bind_eq_ok.mp hnodes
    obtain ⟨found, hfound, rfl⟩ := Node.completes_of_walk hwalk
    exact ⟨hs, fun body hbody ↦ Node.includesNothing_of_derives hfound hbody⟩
  refine hbody.bind fun body hnothing s hs ↦ ⟨hs, .done _ ⟨rfl, ?_⟩⟩
  exact ⟨Identity.same_self _, source, nodes, rfl, hnodes, hnothing⟩

/-- A text that is not in the cache fails, when every inclusion is refused, with the error that its
nodes are compiled with. -/
theorem error_of_refused {r : Registry} {source : String} {nodes : List Node}
    (hnodes : Node.parse r.tagKind? source = .ok nodes) {s : Loading} (hs : s.stack = .empty)
    {e : Error} (h : (template r refused (.source source) (pure source) s).1 = .error e) :
    Node.compileRefusing r nodes = .error e := by
  rcases error_of_template h with henter | ⟨start, -, hbuild⟩
  · rw [hs] at henter
    cases henter
  · rw [Computation.bind_apply, Computation.pure_apply] at hbuild
    unfold build at hbuild
    simp only [hnodes, Computation.bind_apply, Computation.ofExcept_apply,
      compileAll_refused] at hbuild
    cases hrefusing : Node.compileRefusing r nodes with
    | error e' =>
      rw [hrefusing] at hbuild
      cases hbuild
      rfl
    | ok body =>
      rw [hrefusing] at hbuild
      cases hbuild

end Load

namespace Engine

variable {e : Engine} {t : Template}

/-- What an engine without access to files answers has nothing to do with the files. -/
theorem answer_of_disabled (h : e.registry.fileAccess = false) (fs : FileSystem) (q : Request) :
    e.answer fs q =
      e.applyPolicy q.identity (e.run (Load.request e.registry Load.refused q)) := by
  rw [answer_eq, load, Load.file_eq_refused h]

/-- The refusal is an error under either policy, and changes nothing but the next serial number. -/
theorem answer_file_of_disabled (h : e.registry.fileAccess = false) (fs : FileSystem)
    (identifier : String) : e.answer fs (.file identifier) =
      (.error .filesUnavailable, { e with nextSerial := e.nextSerial + 1 }) := by
  have hkind : (e.registry.policy.isStrict || Error.filesUnavailable.kind == .filesUnavailable) =
      true := Bool.or_true _
  rw [answer_of_disabled h]
  change e.applyPolicy (.unresolved identifier) (.error .filesUnavailable, e.loading) = _
  rw [applyPolicy, if_pos hkind]
  rfl

theorem closed_answer (h : e.registry.fileAccess = false) (hc : e.cache.Closed e.registry)
    (fs : FileSystem) (q : Request) :
    (e.answer fs q).2.cache.Closed (e.answer fs q).2.registry := by
  obtain ⟨hregistry, hcache, -⟩ :=
    e.applyPolicy_engine q.identity (e.run (Load.request e.registry Load.refused q))
  rw [answer_of_disabled h, hregistry, hcache]
  cases q with
  | text source => exact (Load.closed_template e.registry source e.loading hc).1
  | file identifier => exact hc

/-- A text that includes something is answered, if at all, with the template for an error that was met
before any inclusion. -/
theorem fallback_of_inclusion (h : e.registry.fileAccess = false)
    (hc : e.cache.Closed e.registry) {fs : FileSystem} {source : String} {nodes : List Node}
    (hnodes : Node.parse e.registry.tagKind? source = .ok nodes)
    (hincludes : ¬Node.IncludesNothing e.registry nodes)
    (hanswer : (e.answer fs (.text source)).1 = .ok t) :
    e.registry.policy = .lenient ∧ ∃ serial error,
      t = .fallback (.source source) serial e.registry error ∧ error ≠ .filesUnavailable ∧
      ∀ (load : String → Load Template) (s : Loading),
        Node.compileAll e.registry load nodes s = (.error error, s) := by
  rw [answer_of_disabled h] at hanswer
  rcases hrun : e.run (Load.request e.registry Load.refused (.text source)) with ⟨error | u, s⟩ <;>
    rw [hrun] at hanswer
  · have herror := Load.error_of_refused hnodes (s := e.loading) rfl (congrArg Prod.fst hrun)
    rw [applyPolicy] at hanswer
    split at hanswer
    · cases hanswer
    · next hlenient =>
      cases hanswer
      rw [Bool.or_eq_true, not_or] at hlenient
      have hne : error ≠ .filesUnavailable := by
        rintro rfl
        exact hlenient.2 rfl
      refine ⟨?_, s.nextSerial, error, rfl, hne, Load.compileAll_of_error herror hne⟩
      cases hpolicy : e.registry.policy with
      | lenient => rfl
      | strict =>
        rw [hpolicy] at hlenient
        exact absurd rfl hlenient.1
  · obtain ⟨-, hsame, hclosed⟩ :=
      (Load.closed_template e.registry source).of_eq_ok hc hrun
    exact absurd (hclosed.includesNothing hsame hnodes) hincludes

end Engine

/-! ### Sessions -/

/-- Two commands that are the same, or leave any files behind. -/
inductive Command.SameButFiles : Command → Command → Prop
  | same (c : Command) : SameButFiles c c
  | changeFiles (fs fs' : FileSystem) : SameButFiles (.changeFiles fs) (.changeFiles fs')

namespace Session

/-- Two sessions without access to files that are the same except for the files. -/
structure SameButFiles (s t : Session) : Prop where
  engine : s.engine = t.engine
  results : s.results = t.results
  calls : s.calls = t.calls
  disabled : s.engine.registry.fileAccess = false

variable {s t : Session} {c c' : Command}

/-- A step shows nothing of the files. -/
theorem SameButFiles.step (h : s.SameButFiles t) (hc : c.SameButFiles c')
    (hinit : ∀ wd o, c = .init wd o → o.fileAccess = false) :
    (s.step c).1 = (t.step c').1 ∧ (s.step c).2.SameButFiles (t.step c').2 := by
  obtain ⟨engine, files, results, calls⟩ := s
  obtain ⟨_, files', _, _⟩ := t
  obtain ⟨⟨⟩, ⟨⟩, ⟨⟩, hdisabled⟩ := h
  cases hc with
  | changeFiles fs fs' => exact ⟨rfl, rfl, rfl, rfl, hdisabled⟩
  | same =>
    cases c with
    | changeFiles fs => exact ⟨rfl, rfl, rfl, rfl, hdisabled⟩
    | init wd o => exact ⟨rfl, rfl, rfl, rfl, hinit wd o rfl⟩
    | request q =>
      have hanswer : engine.answer files q = engine.answer files' q := by
        rw [Engine.answer_of_disabled hdisabled, Engine.answer_of_disabled hdisabled]
      have hnext : (engine.answer files q).2.registry.fileAccess = false := by
        rw [engine.registry_answer]
        exact hdisabled
      unfold Session.step
      dsimp only at hnext ⊢
      rw [hanswer] at hnext ⊢
      exact ⟨rfl, rfl, rfl, rfl, hnext⟩
    | render index scope =>
      unfold Session.step
      dsimp only
      split <;> exact ⟨rfl, rfl, rfl, rfl, hdisabled⟩

/-- A run shows nothing of the files. -/
theorem SameButFiles.trace {commands commands' : List Command} (h : s.SameButFiles t)
    (hsame : List.Forall₂ Command.SameButFiles commands commands')
    (hinit : ∀ wd o, .init wd o ∈ commands → o.fileAccess = false) :
    s.trace commands = t.trace commands' := by
  induction hsame generalizing s t with
  | nil => rfl
  | @cons c c' rest rest' hc _ ih =>
    obtain ⟨hanswer, hnext⟩ := h.step hc fun wd o heq ↦ hinit wd o (heq ▸ List.mem_cons_self)
    rw [Session.trace, Session.trace]
    dsimp only
    rw [hanswer, hnext.engine, ih hnext fun wd o hmem ↦ hinit wd o (List.mem_cons_of_mem _ hmem)]

theorem closed_after {commands : List Command} (hs : s.engine.registry.fileAccess = false)
    (hc : s.engine.cache.Closed s.engine.registry)
    (hinit : ∀ wd o, .init wd o ∈ commands → o.fileAccess = false) :
    (s.after commands).engine.registry.fileAccess = false ∧
      (s.after commands).engine.cache.Closed (s.after commands).engine.registry := by
  refine engine_after (P := fun e ↦ e.registry.fileAccess = false ∧ e.cache.Closed e.registry)
    (fun wd o hmem e _ ↦ ⟨hinit wd o hmem, fun _ ht ↦ nomatch ht⟩) ?_ ⟨hs, hc⟩
  rintro e fs q ⟨he, hc⟩
  exact ⟨(congrArg Registry.fileAccess (e.registry_answer fs q)).trans he,
    Engine.closed_answer he hc fs q⟩

/-- Without access to files an engine is closed off from them. A session whose set-ups all deny the
access answers the same at every step, with the same cache after it, whatever files there are at the
beginning and are left behind on the way. Wherever it stands, every request for a file is refused,
under either policy, and leaves the cache and its counts as they are. A request for a text in which
some tag, at any depth, is an inclusion is not answered with a template, unless the policy is lenient
and the template stands for an error other than the refusal, which every loader leads to before it is
called. -/
theorem sealed_from_files {serial : Nat} {workingDirectory : Path} {o : Options}
    {commands : List Command} (ho : o.fileAccess = false)
    (hinit : ∀ wd o', .init wd o' ∈ commands → o'.fileAccess = false) (fs : FileSystem) :
    let first := start serial workingDirectory o fs
    let s := first.after commands
    (∀ fs' commands', List.Forall₂ Command.SameButFiles commands commands' →
      first.trace commands = (start serial workingDirectory o fs').trace commands') ∧
    (∀ identifier, (s.step (.request (.file identifier))).1 = .compiled (.error .filesUnavailable) ∧
      (s.step (.request (.file identifier))).2.engine.cache = s.engine.cache) ∧
    ∀ source nodes, Node.parse s.engine.registry.tagKind? source = .ok nodes →
      (∃ head ∈ Node.headsOf nodes, s.engine.registry.tag? head.name = some .inclusion) →
      ∀ t, (s.step (.request (.text source))).1 = .compiled (.ok t) →
        s.engine.registry.policy = .lenient ∧ ∃ serial error,
          t = .fallback (.source source) serial s.engine.registry error ∧
          error ≠ .filesUnavailable ∧ ∀ (load : String → Load Template) (loading : Loading),
            Node.compileAll s.engine.registry load nodes loading = (.error error, loading) := by
  intro first s
  have hafter : s.engine.registry.fileAccess = false ∧
      s.engine.cache.Closed s.engine.registry :=
    closed_after ho (fun _ ht ↦ nomatch ht) hinit
  obtain ⟨hdisabled, hclosed⟩ := hafter
  refine ⟨fun fs' commands' hsame ↦ ?_, fun identifier ↦ ?_, fun source nodes hnodes hhead t ht ↦ ?_⟩
  · exact SameButFiles.trace ⟨rfl, rfl, rfl, ho⟩ hsame hinit
  · have hanswer := Engine.answer_file_of_disabled hdisabled s.files identifier
    exact ⟨congrArg (Answer.compiled ∘ Prod.fst) hanswer,
      congrArg (Engine.cache ∘ Prod.snd) hanswer⟩
  · have hincludes : ¬Node.IncludesNothing s.engine.registry nodes := by
      obtain ⟨head, hmem, hinclusion⟩ := hhead
      exact fun hnothing ↦ hnothing head hmem hinclusion
    exact Engine.fallback_of_inclusion hdisabled hclosed hnodes hincludes (Answer.compiled.inj ht)

/-- A text with an inclusion behind an unknown filter. -/
def unknownBeforeInclusion : String := "\x7b\x7b x|nope \x7d\x7d\x7b% include \"a\" %\x7d"

private theorem exists_nodes_unknownBeforeInclusion (r : Registry)
    (hr : r = .ofOptions 0 ⟨"/"⟩ { Options.default with fileAccess := false }) :
    ∃ nodes, Node.parse r.tagKind? unknownBeforeInclusion = .ok nodes ∧
      ∃ head ∈ Node.headsOf nodes, r.tag? head.name = some .inclusion := by
  have hcheck : ((Node.parse r.tagKind? unknownBeforeInclusion).toOption.any fun nodes ↦
      (Node.headsOf nodes).any fun head ↦ (r.tag? head.name).any TagEntry.isInclusion) = true := by
    rw [hr]
    decide +kernel
  cases hparse : Node.parse r.tagKind? unknownBeforeInclusion with
  | error e =>
    rw [hparse] at hcheck
    cases hcheck
  | ok nodes =>
    rw [hparse] at hcheck
    obtain ⟨head, hmem, hhead⟩ := List.any_eq_true.mp hcheck
    obtain ⟨entry, hentry, hinclusion⟩ := (Option.any_eq_true _ _).mp hhead
    cases entry with
    | simple handler => cases hinclusion
    | raw handler => cases hinclusion
    | inclusion => exact ⟨nodes, rfl, head, hmem, hentry⟩

/-- The unknown filter is shown, and not the inclusion, which is not reached; the answers are the same
with the included file and without it. -/
theorem sealed_from_files_unknown :
    let o := { Options.default with fileAccess := false }
    let s := start 0 ⟨"/"⟩ o .oneInclusion
    s.trace [.request (.text unknownBeforeInclusion)] =
      (start 0 ⟨"/"⟩ o ⟨[], []⟩).trace [.request (.text unknownBeforeInclusion)] ∧
    (s.step (.request (.file "a"))).1 = .compiled (.error .filesUnavailable) ∧
    ∃ t, (s.step (.request (.text unknownBeforeInclusion))).1 = .compiled (.ok t) ∧
      ∃ serial error, t = .fallback (.source unknownBeforeInclusion) serial s.engine.registry error ∧
        error ≠ .filesUnavailable := by
  intro o s
  have ho : o.fileAccess = false := rfl
  have hinit (commands : List Command) (h : ∀ c ∈ commands, c.isInit = false) (wd : Path)
      (o' : Options) (hmem : .init wd o' ∈ commands) : o'.fileAccess = false :=
    nomatch h _ hmem
  have hok : (s.engine.answer s.files (.text unknownBeforeInclusion)).1.isOk = true := by
    decide +kernel
  obtain ⟨t, ht⟩ := Computation.exists_eq_ok_of_isOk hok
  obtain ⟨nodes, hnodes, hhead⟩ := exists_nodes_unknownBeforeInclusion s.engine.registry rfl
  refine ⟨?_, ?_, t, congrArg Answer.compiled ht, ?_⟩
  · refine (sealed_from_files ho (hinit [.request (.text unknownBeforeInclusion)] ?_)
      .oneInclusion).1 _ _ (.cons (.same _) .nil)
    rintro c hc
    rw [List.mem_singleton.mp hc]
    rfl
  · exact ((sealed_from_files ho (hinit [] nofun) .oneInclusion).2.1 "a").1
  · obtain ⟨-, n, error, heq, hne, -⟩ := (sealed_from_files ho (hinit [] nofun)
      .oneInclusion).2.2 _ nodes hnodes hhead t (congrArg Answer.compiled ht)
    exact ⟨n, error, heq, hne⟩

end Session

end Stencil
