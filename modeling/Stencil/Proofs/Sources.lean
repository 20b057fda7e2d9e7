import Mathlib
import Stencil.Proofs.Cycles
import Stencil.Proofs.Meaning
import Stencil.Proofs.Uses

/-!
# What the templates of a session were compiled from

Every template that a host program gets was compiled from texts that were there when it asked for
something: what a request gives is built just then or comes from the cache, and what is in the cache
was built so earlier.
-/

namespace Stencil

/-! ### Compiling again with what was loaded -/

namespace Load

/-- What a computation ensures, by what it does to a state. -/
theorem ensures_iff {α : Type} {I : Loading → Prop} {x : Load α} {Q : α → Prop} :
    Ensures I x Q ↔ ∀ s, I s → I (x s).2 ∧ ∀ a, (x s).1 = .ok a → Q a := by
  constructor
  · intro h s hs
    obtain ⟨hkept, halike⟩ := h s hs
    refine ⟨hkept, fun a ha ↦ ?_⟩
    generalize x s = out at *
    cases halike with
    | excuse he => exact he.elim
    | failed e after => cases ha
    | done after hab =>
      cases ha
      exact hab.2
  · intro h s hs
    obtain ⟨hkept, hresult⟩ := h s hs
    refine ⟨hkept, ?_⟩
    generalize x s = out at *
    rcases out with ⟨e | a, after⟩
    · exact .failed e after
    · exact .done after ⟨rfl, hresult a rfl⟩

/-- From a state with an invariant loading keeps it, and a result comes out again with some supplied
templates, all of which have a property. -/
def supplying (I : Loading → Prop) (G : Supplied → Prop) : Comparison Load Supply where
  rel P x y := ∀ s, I s → I (x s).2 ∧ ∀ a, (x s).1 = .ok a → ∃ b supply, P a b ∧
    (∀ u ∈ supply, G u) ∧ ∀ rest, y (supply ++ rest) = (.ok b, rest)
  rel_pure := by
    rintro _ _ P a b h s hs
    refine ⟨hs, fun a' ha ↦ ⟨b, [], ?_, nofun, fun _ ↦ rfl⟩⟩
    cases ha
    exact h
  rel_throw _ _ hs := ⟨hs, nofun⟩
  rel_bind := by
    intro _ _ _ _ P Q x y f g hxy hfg s hs
    obtain ⟨hkept, hout⟩ := hxy s hs
    rw [Computation.bind_apply]
    generalize x s = out at *
    rcases out with ⟨e | a, middle⟩
    · exact ⟨hkept, nofun⟩
    · obtain ⟨b, first, hab, hfirst, hy⟩ := hout a rfl
      obtain ⟨hkept', hout'⟩ := hfg a b hab middle hkept
      refine ⟨hkept', fun c hc ↦ ?_⟩
      obtain ⟨d, second, hcd, hsecond, hg⟩ := hout' c hc
      refine ⟨d, first ++ second, hcd, ?_, fun rest ↦ ?_⟩
      · exact fun u hu ↦ (List.mem_append.mp hu).elim (hfirst u) (hsecond u)
      · rw [Computation.bind_apply, List.append_assoc, hy]
        exact hg rest
  rel_map := by
    intro _ _ _ _ P Q x y f g hxy hfg s hs
    obtain ⟨hkept, hout⟩ := hxy s hs
    rw [Computation.map_apply]
    generalize x s = out at *
    rcases out with ⟨e | a, after⟩
    · exact ⟨hkept, nofun⟩
    · obtain ⟨b, supply, hab, hsupply, hy⟩ := hout a rfl
      refine ⟨hkept, fun c hc ↦ ⟨g b, supply, ?_, hsupply, fun rest ↦ ?_⟩⟩
      · cases hc
        exact hfg a b hab
      · rw [Computation.map_apply, hy]

variable {r : Registry} {fs : FileSystem} {files : FileSystem → Prop} {I : Loading → Prop}
  {load : String → Load Template} {identity : Identity}

/-- A body that was compiled while inclusions were loaded is compiled again with what was loaded. -/
theorem ensures_supplied {G : Supplied → Prop} {nodes : List Node}
    (hload : ∀ identifier ∈ Node.loadsOf r nodes,
      Ensures I (load identifier) fun t ↦ ∃ uses, G ⟨identifier, t, uses⟩) :
    Ensures I (Node.compileAll r load nodes) fun body ↦ ∃ supply, (∀ u ∈ supply, G u) ∧
      Node.compileAll r Supply.next nodes supply = (.ok body, []) := by
  have hnext (identifier : String) (hmem : identifier ∈ Node.loadsOf r nodes) :
      (supplying I G).rel Eq (load identifier) (Supply.next identifier) := by
    intro s hs
    obtain ⟨hkept, hresult⟩ := ensures_iff.mp (hload identifier hmem) s hs
    refine ⟨hkept, fun t ht ↦ ?_⟩
    obtain ⟨uses, hgood⟩ := hresult t ht
    refine ⟨t, [⟨identifier, t, uses⟩], rfl, ?_, fun rest ↦ Supply.next_cons _ rest⟩
    rintro u hu
    rwa [List.mem_singleton.mp hu]
  refine ensures_iff.mpr fun s hs ↦ ?_
  obtain ⟨hkept, hresult⟩ :=
    Node.rel_compileAll_of_loads (supplying I G) (respects_self r) (.refl r) nodes hnext s hs
  refine ⟨hkept, fun body hbody ↦ ?_⟩
  obtain ⟨other, supply, heq, hsupply, hcompile⟩ := hresult body hbody
  rw [List.forall₂_eq_eq_eq] at heq
  subst heq
  refine ⟨supply, hsupply, ?_⟩
  have happly := hcompile []
  rwa [List.append_nil] at happly

end Load

/-! ### Loading -/

/-- A template was compiled under a registry from some files. -/
def Template.SourcedIn (r : Registry) (files : FileSystem → Prop) (t : Template) : Prop :=
  t.registry = r ∧ ∃ uses, t.CompiledFrom files uses

/-- Every cached template was compiled under a registry from some files. -/
def Cache.Sourced (r : Registry) (files : FileSystem → Prop) (c : Cache) : Prop :=
  ∀ t ∈ c.templates, t.SourcedIn r files

theorem Cache.sourced_of_templates {r : Registry} {files : FileSystem → Prop} {c : Cache}
    (h : c.templates = []) : c.Sourced r files := by
  intro t ht
  rw [h] at ht
  cases ht

namespace Load

variable {r : Registry} {fs : FileSystem} {files : FileSystem → Prop}
  {load : String → Load Template} {identity : Identity} {identifier : String}

/-- A template is the one of an identity, in some spelling of it, and was compiled from some files. -/
private def Delivers (r : Registry) (files : FileSystem → Prop) (identity : Identity)
    (t : Template) : Prop :=
  t.identity.same identity = true ∧ t.SourcedIn r files

/-- What is supplied for an inclusion is the template of its file, and was compiled from some files. -/
private def Stands (r : Registry) (fs : FileSystem) (files : FileSystem → Prop) (u : Supplied) :
    Prop :=
  (u.Leads r fs ∧ u.template.registry = r) ∧ u.template.CompiledFrom files u.uses

/-- Nodes are compiled to a body that was compiled from some files, if what is loaded for their
inclusions was. -/
private theorem supplied_nodes (nodes : List Node)
    (hload : ∀ identifier, Ensures (·.cache.Sourced r files) (load identifier) fun t ↦
      ∃ path, fs.resolve identifier r.roots = .ok path ∧ Delivers r files (.file path) t) :
    Ensures (·.cache.Sourced r files) (Node.compileAll r load nodes) fun body ↦
      ∃ supply, (∀ u ∈ supply, Stands r fs files u) ∧
        Node.compileAll r Supply.next nodes supply = (.ok body, []) := by
  refine ensures_supplied fun identifier _ ↦ (hload identifier).imp ?_
  rintro t ⟨path, hpath, hsame, hregistry, uses, hcompiled⟩
  exact ⟨uses, ⟨⟨path, hpath, hsame⟩, hregistry⟩, hcompiled⟩

private theorem sourced_build (hfs : files fs) {read : Load String}
    (hread : Ensures (·.cache.Sourced r files) read (fs.textOf identity = .ok ·))
    (hload : ∀ identifier, Ensures (·.cache.Sourced r files) (load identifier) fun t ↦
      ∃ path, fs.resolve identifier r.roots = .ok path ∧ Delivers r files (.file path) t) :
    Ensures (·.cache.Sourced r files) (read >>= build r load identity)
      (Delivers r files identity) := by
  refine hread.bind fun text htext ↦ (Ensures.ofExcept _).bind fun nodes hnodes ↦ ?_
  have hown := FileSystem.nodesOf_eq_ok.mpr ⟨text, htext, hnodes⟩
  refine (supplied_nodes nodes hload).bind ?_
  rintro body ⟨supply, hsupply, hcompile⟩ s hs
  have hcompiled := Template.CompiledFrom.intro (t := ⟨identity, s.nextSerial, r, body⟩) hfs hown
    (fun u hu ↦ (hsupply u hu).1) (fun u hu ↦ (hsupply u hu).2) hcompile
  exact ⟨hs, .done _ ⟨rfl, Identity.same_self identity, rfl, _, hcompiled⟩⟩

private theorem sourced_template (hfs : files fs) {read : Load String}
    (hread : Ensures (·.cache.Sourced r files) read (fs.textOf identity = .ok ·))
    (hload : ∀ identifier, Ensures (·.cache.Sourced r files) (load identifier) fun t ↦
      ∃ path, fs.resolve identifier r.roots = .ok path ∧ Delivers r files (.file path) t) :
    Ensures (·.cache.Sourced r files) (template r load identity read)
      (Delivers r files identity) :=
  ensures_template (sourced_build hfs hread hload)

private theorem sourced_file (hfs : files fs) (depth : Nat) (identifier : String) :
    Ensures (·.cache.Sourced r files) (file r fs depth identifier) fun t ↦
      ∃ path, fs.resolve identifier r.roots = .ok path ∧ Delivers r files (.file path) t := by
  induction depth generalizing identifier with
  | zero => exact .throw _
  | succ depth ih =>
    change Ensures _ (fileWith r fs _ identifier) _
    unfold fileWith
    split
    · refine (Ensures.ofExcept _).bind fun path hpath ↦ ?_
      have hread : Ensures (·.cache.Sourced r files) (readText fs path)
          (fs.textOf (.file path) = .ok ·) := alike_readText path fun _ hs ↦ hs
      exact (sourced_template hfs hread ih).imp fun _ ht ↦ ⟨path, hpath, ht⟩
    · exact .throw _

/-- Every body that nodes are compiled to was compiled from some files, if the cached templates were
and the files are among them. -/
theorem compiledFrom_of_compileAll (hfs : files fs) {depth : Nat} {nodes : List Node}
    {s : Loading} (hs : s.cache.Sourced r files) {body : Body}
    (h : (Node.compileAll r (file r fs depth) nodes s).1 = .ok body) :
    ∃ uses, body.CompiledFrom files r nodes uses := by
  have hbody := supplied_nodes nodes (sourced_file (r := r) hfs depth)
  obtain ⟨supply, hsupply, hcompile⟩ := (ensures_iff.mp hbody s hs).2 body h
  exact ⟨_, .intro hfs (fun u hu ↦ (hsupply u hu).1) (fun u hu ↦ (hsupply u hu).2) hcompile⟩

/-- What is asked for was compiled from some files, if the cached templates were and the files are
among them. -/
theorem sourced_request (hfs : files fs) (q : Request) :
    Ensures (·.cache.Sourced r files) (request r (file r fs (fs.size + 2)) q)
      (·.SourcedIn r files) := by
  cases q with
  | text source =>
    exact (sourced_template hfs (.pure rfl) (sourced_file hfs _)).imp fun _ ht ↦ ht.2
  | file identifier =>
    exact (sourced_file hfs _ identifier).imp fun _ ⟨_, _, ht⟩ ↦ ht.2

end Load

/-! ### Sessions -/

namespace Engine

variable {e : Engine} {fs : FileSystem} {files : FileSystem → Prop} {q : Request} {t : Template}

/-- An answer adds to the cache only what was compiled from the files that there are. -/
theorem sourced_answer (h : e.cache.Sourced e.registry files) (hfs : files fs) (q : Request) :
    (e.answer fs q).2.cache.Sourced (e.answer fs q).2.registry files := by
  obtain ⟨hregistry, hcache, -⟩ := e.applyPolicy_engine q.identity (e.load fs q)
  rw [← e.answer_eq fs q] at hregistry hcache
  rw [hregistry, hcache]
  exact ((Load.ensures_iff.mp (Load.sourced_request hfs q)) e.loading h).1

/-- A template that is answered was compiled from the files that there are, or from those that the
cached templates were compiled from; or it stands for a failure. -/
theorem uses_of_answer (h : e.cache.Sourced e.registry files) (hfs : files fs)
    (hanswer : (e.answer fs q).1 = .ok t) :
    t.registry = e.registry ∧ ∃ uses, t.Uses files uses := by
  have hload := ((Load.ensures_iff.mp (Load.sourced_request hfs q)) e.loading h).2
  rw [e.answer_eq fs q] at hanswer
  change ∀ u, (e.load fs q).1 = .ok u → u.SourcedIn e.registry files at hload
  generalize e.load fs q = out at *
  rcases out with ⟨error | u, s⟩
  · rw [applyPolicy] at hanswer
    split at hanswer
    · cases hanswer
    · cases hanswer
      exact ⟨rfl, [], .inr ⟨⟨error, rfl⟩, rfl⟩⟩
  · cases hanswer
    obtain ⟨hregistry, uses, hcompiled⟩ := hload t rfl
    exact ⟨hregistry, uses, .inl hcompiled⟩

end Engine

namespace Session

/-- Files that were there when a request of a session was answered. -/
def Served (first : Session) (commands : List Command) (fs : FileSystem) : Prop :=
  ∃ earlier q later, commands = earlier ++ .request q :: later ∧ (first.after earlier).files = fs

variable {first s : Session} {commands : List Command} {t : Template}

theorem Served.append {fs : FileSystem} (h : first.Served commands fs) (more : List Command) :
    first.Served (commands ++ more) fs := by
  obtain ⟨earlier, q, later, rfl, hfs⟩ := h
  exact ⟨earlier, q, later ++ more, by simp, hfs⟩

/-- What a step adds to the results: a request adds what it gives. -/
theorem step_results (s : Session) (c : Command) :
    (∃ q, c = .request q ∧
      (s.step c).2.results = s.results ++ [(s.engine.answer s.files q).1]) ∨
    (s.step c).2.results = s.results := by
  cases c with
  | request q => exact .inl ⟨q, rfl, rfl⟩
  | init workingDirectory o => exact .inr rfl
  | changeFiles fs => exact .inr rfl
  | render index scope =>
    right
    unfold step
    dsimp only
    split <;> rfl

/-- The results of a session are what its requests gave. -/
theorem mem_results {result : Except Error Template} (hfirst : first.results = [])
    (h : result ∈ (first.after commands).results) :
    ∃ earlier q later, commands = earlier ++ .request q :: later ∧
      ((first.after earlier).engine.answer (first.after earlier).files q).1 = result := by
  induction commands using List.reverseRecOn with
  | nil =>
    rw [after, List.foldl_nil, hfirst] at h
    cases h
  | append_singleton commands c ih =>
    rw [after_append] at h
    change result ∈ ((first.after commands).step c).2.results at h
    have hold (h : result ∈ (first.after commands).results) :
        ∃ earlier q later, commands ++ [c] = earlier ++ .request q :: later ∧
          ((first.after earlier).engine.answer (first.after earlier).files q).1 = result := by
      obtain ⟨earlier, q, later, hcommands, hanswer⟩ := ih h
      exact ⟨earlier, q, later ++ [c], by simp [hcommands], hanswer⟩
    rcases (first.after commands).step_results c with ⟨q, rfl, hresults⟩ | hresults
    · rw [hresults] at h
      rcases List.mem_append.mp h with h | h
      · exact hold h
      · exact ⟨commands, q, [], rfl, (List.mem_singleton.mp h).symm⟩
    · rw [hresults] at h
      exact hold h

/-- Every cached template was compiled from files that were there when a request was answered. -/
theorem sourced_after (hempty : first.engine.cache.templates = []) (commands : List Command) :
    (first.after commands).engine.cache.Sourced (first.after commands).engine.registry
      (first.Served commands) := by
  induction commands using List.reverseRecOn with
  | nil => exact Cache.sourced_of_templates hempty
  | append_singleton commands c ih =>
    have hmore : (first.after commands).engine.cache.Sourced
        (first.after commands).engine.registry (first.Served (commands ++ [c])) := by
      intro t ht
      obtain ⟨hregistry, uses, hcompiled⟩ := ih t ht
      exact ⟨hregistry, uses, hcompiled.mono fun _ hfs ↦ hfs.append [c]⟩
    rw [after_append]
    change Cache.Sourced ((first.after commands).step c).2.engine.registry _
      ((first.after commands).step c).2.engine.cache
    rcases (first.after commands).step_engine c with
      ⟨wd, o, -, hengine⟩ | ⟨q, rfl, hengine⟩ | ⟨-, hengine⟩ <;> rw [hengine]
    · exact Cache.sourced_of_templates rfl
    · exact Engine.sourced_answer hmore ⟨commands, q, [], rfl, rfl⟩ q
    · exact hmore

/-- What the registries of all set-ups have in common is true of the registry of every engine in the
session. -/
theorem registry_after {P : Registry → Prop} (hfirst : P first.engine.registry)
    (hinit : ∀ wd o, .init wd o ∈ commands → ∀ serial, P (.ofOptions serial wd o)) :
    P (first.after commands).engine.registry := by
  refine engine_after (P := fun e ↦ P e.registry) (fun wd o hmem e _ ↦ ?_) (fun e fs q h ↦ ?_)
    hfirst
  · exact hinit wd o hmem e.nextSerial
  · rwa [e.registry_answer]

/-- Every template that a session gave stands for a failure or was compiled from files that were there
when a request was answered, under the registry of one of the set-ups. -/
theorem exists_uses {P : Registry → Prop} (hempty : first.engine.cache.templates = [])
    (hresults : first.results = []) (hfirst : P first.engine.registry)
    (hinit : ∀ wd o, .init wd o ∈ commands → ∀ serial, P (.ofOptions serial wd o))
    (ht : .ok t ∈ (first.after commands).results) :
    P t.registry ∧ ∃ uses, t.Uses (first.Served commands) uses := by
  obtain ⟨earlier, q, later, rfl, hanswer⟩ := mem_results hresults ht
  have hsourced : (first.after earlier).engine.cache.Sourced (first.after earlier).engine.registry
      (first.Served (earlier ++ .request q :: later)) := by
    intro u hu
    obtain ⟨hregistry, uses, hcompiled⟩ := sourced_after hempty earlier u hu
    exact ⟨hregistry, uses, hcompiled.mono fun _ hfs ↦ hfs.append _⟩
  have hfs : first.Served (earlier ++ .request q :: later) (first.after earlier).files :=
    ⟨earlier, q, later, rfl, rfl⟩
  obtain ⟨hregistry, huses⟩ := Engine.uses_of_answer hsourced hfs hanswer
  refine ⟨?_, huses⟩
  rw [hregistry]
  exact registry_after hfirst fun wd o hmem ↦ hinit wd o (List.mem_append_left _ hmem)

end Session

/-! ### A text that includes a file -/

/-- A file that shows how long something is. -/
def FileSystem.shownLength : FileSystem :=
  ⟨[], [(["a"], .file "\x7b\x7by|length\x7d\x7d".toUTF8)]⟩

/-- A text that includes this file, and joins the items of a list. -/
def joinedItems : String := "\x7b%include \"a\"%\x7d\x7b\x7bx[k]|join(z)\x7d\x7d"

/-- The output of the file. -/
def Expression.shownLength : Expression := ⟨.named "y", [⟨"length", []⟩]⟩

/-- The output of the text. -/
def Expression.joinedItems : Expression :=
  ⟨.index (.named "x") (.named "k"), [⟨"join", [.named "z"]⟩]⟩

/-- What the file is compiled to. -/
def Template.shownLength : Template :=
  ⟨.file ⟨"/a"⟩, 1, .strictDefault, [.output ⟨.named "y", [⟨"length", .length, []⟩]⟩]⟩

/-- What the text is compiled to. -/
def Template.joinedItems : Template :=
  ⟨.source Stencil.joinedItems, 2, .strictDefault,
    [.included shownLength.identity shownLength.serial shownLength.body,
      .output ⟨.index (.named "x") (.named "k"), [⟨"join", .join, [.named "z"]⟩]⟩]⟩

/-- A session in which the text is asked for. -/
def Session.joining : Session :=
  .start 0 ⟨"/"⟩ { Options.default with policy := .strict } .shownLength

theorem Session.results_joining :
    (joining.after [.request (.text joinedItems)]).results = [.ok .joinedItems] := by
  cbv

private theorem nodesOf_shownLength :
    FileSystem.shownLength.nodesOf .strictDefault Template.shownLength.identity =
      .ok [.output .shownLength ⟨⟨1, 1, 0⟩, ⟨1, 13, 12⟩⟩] := by
  cbv

/-- The file uses what its output uses. -/
theorem Template.compiledFrom_shownLength {files : FileSystem → Prop} (h : files .shownLength) :
    Template.shownLength.CompiledFrom files [.output .shownLength] :=
  @Template.CompiledFrom.intro _ .shownLength _ _ [] h nodesOf_shownLength nofun nofun rfl

private theorem nodesOf_joinedItems :
    FileSystem.shownLength.nodesOf .strictDefault Template.joinedItems.identity =
      .ok [.tag ⟨"include", "\"a\""⟩ .standalone [] ⟨⟨1, 1, 0⟩, ⟨1, 16, 15⟩⟩,
        .output .joinedItems ⟨⟨1, 16, 15⟩, ⟨1, 32, 31⟩⟩] := by
  cbv

/-- The text uses what its own output and the one of the file use. -/
theorem Template.uses_joinedItems :
    Template.joinedItems.Uses (Session.joining.Served [.request (.text Stencil.joinedItems)])
      [.output .joinedItems, .output .shownLength] := by
  have hserved : Session.joining.Served [.request (.text Stencil.joinedItems)] .shownLength :=
    ⟨[], _, [], rfl, rfl⟩
  refine .inl (@Template.CompiledFrom.intro _ .joinedItems _ _
    [⟨"a", .shownLength, [.output .shownLength]⟩] hserved nodesOf_joinedItems ?_ ?_ ?_)
  · intro u hu
    obtain rfl := List.mem_singleton.mp hu
    exact ⟨⟨⟨"/a"⟩, by decide +kernel, by decide +kernel⟩, rfl⟩
  · intro u hu
    obtain rfl := List.mem_singleton.mp hu
    exact Template.compiledFrom_shownLength hserved
  · cbv

end Stencil
