import Mathlib.Data.List.Induction
import Stencil.Proofs.Failure
import Stencil.Proofs.Provenance

/-!
# The cache over a session

However a host program sets an engine up, asks it for templates and changes files, the cache is in
order. Every cached template goes back to one request since the last set-up, which made it from the
text that there was then; no template that stands for a failure is ever cached, nor one that was
being compiled when a request failed.
-/

namespace Stencil

/-! ### Engines -/

namespace Engine

/-- The cache of an engine is in order: it holds no doubles, and nothing unless it is enabled; its
templates have the registry of the engine, and serial numbers that are not given out any more. -/
structure Tidy (e : Engine) : Prop where
  distinct : e.cache.Distinct
  disabled : e.cache.enabled = false → e.cache.templates = []
  registry : ∀ t ∈ e.cache.templates, t.registry = e.registry
  serial : ∀ t ∈ e.cache.templates, t.serial < e.nextSerial

/-- A serial number that is not given out any more is the one of no cached template. -/
structure Spent (e : Engine) (serial : Nat) : Prop where
  lt : serial < e.nextSerial
  fresh : ∀ t ∈ e.cache.templates, t.serial ≠ serial

variable {e : Engine} {fs : FileSystem} {q : Request} {t : Template}

theorem tidy_ofOptions (serial : Nat) (workingDirectory : Path) (o : Options) :
    (ofOptions serial workingDirectory o).Tidy :=
  ⟨.nil, fun _ ↦ rfl, nofun, nofun⟩

/-- An engine with its cache in order stands at the beginning of what loading leads to. -/
theorem Tidy.follows (h : e.Tidy) (fs : FileSystem) :
    e.loading.Follows e.registry fs e.loading :=
  ⟨.refl _, Nat.le_refl _, h.distinct, h.disabled, fun _ ↦ .inl⟩

/-- Loading adds to the cache what was made for the request. -/
theorem Tidy.follows_load (h : e.Tidy) (fs : FileSystem) (q : Request) :
    (e.load fs q).2.Follows e.registry fs e.loading :=
  Load.follows_request q (h.follows fs)

/-- An answer adds to the cache what loading added. -/
theorem Tidy.follows_answer (h : e.Tidy) (fs : FileSystem) (q : Request) :
    (e.answer fs q).2.loading.Follows e.registry fs e.loading := by
  obtain ⟨-, hcache, hserial⟩ := e.applyPolicy_engine q.identity (e.load fs q)
  rw [← e.answer_eq fs q] at hcache hserial
  exact (h.follows_load fs q).of_eq (congrArg Cache.enabled hcache)
    (congrArg Cache.templates hcache) hserial

theorem Tidy.answer (h : e.Tidy) (fs : FileSystem) (q : Request) : (e.answer fs q).2.Tidy := by
  have hfollows := h.follows_answer fs q
  refine ⟨hfollows.distinct, hfollows.disabled, fun t ht ↦ ?_, fun t ht ↦ ?_⟩
  · rw [registry_answer]
    rcases hfollows.made t ht with hold | ⟨hmade, -⟩
    · exact h.registry t hold
    · exact hmade.registry
  · rcases hfollows.made t ht with hold | ⟨-, -, hto⟩
    · exact Nat.lt_of_lt_of_le (h.serial t hold) hfollows.serial
    · exact hto

/-- A template that an answer adds to the cache was not there under its identity. -/
theorem Tidy.find?_of_serial_le (h : e.Tidy) (ht : t ∈ (e.answer fs q).2.cache.templates)
    (hserial : e.nextSerial ≤ t.serial) : e.cache.find? t.identity = none := by
  have hfollows := h.follows_answer fs q
  cases hfind : e.cache.find? t.identity with
  | none => rfl
  | some u =>
    obtain ⟨hu, hsame⟩ := Cache.mem_of_find? hfind
    have hfirst := hfollows.distinct.find?_of_mem (hfollows.grows.templates hu) hsame
    have hsecond := hfollows.distinct.find?_of_mem ht (Identity.same_self t.identity)
    obtain rfl : u = t := Option.some.inj (hfirst.symm.trans hsecond)
    exact absurd (h.serial u hu) (Nat.not_lt.mpr hserial)

theorem Spent.answer {n : Nat} (hn : e.Spent n) (h : e.Tidy) (fs : FileSystem) (q : Request) :
    (e.answer fs q).2.Spent n := by
  have hfollows := h.follows_answer fs q
  refine ⟨Nat.lt_of_lt_of_le hn.lt hfollows.serial, fun t ht ↦ ?_⟩
  rcases hfollows.made t ht with hold | ⟨-, hfrom, -⟩
  · exact hn.fresh t hold
  · exact (Nat.lt_of_lt_of_le hn.lt hfrom).ne'

/-- The template that stands for a failure is not cached, now or later: it has a serial number of
its own. -/
theorem Tidy.spent_of_failed (h : e.Tidy) {error : Error}
    (hfailed : (e.load fs q).1 = .error error) (hanswer : (e.answer fs q).1 = .ok t) :
    (e.answer fs q).2.Spent t.serial := by
  have hfollows := h.follows_load fs q
  rw [e.answer_eq fs q] at hanswer ⊢
  generalize e.load fs q = out at *
  rcases out with ⟨_ | _, s⟩ <;> cases hfailed
  rw [applyPolicy] at hanswer ⊢
  split at hanswer
  · cases hanswer
  · next hlenient =>
    cases hanswer
    rw [if_neg hlenient]
    refine ⟨Nat.lt_succ_self _, fun u hu ↦ Nat.ne_of_lt ?_⟩
    rcases hfollows.made u hu with hold | ⟨-, -, hto⟩
    · exact Nat.lt_of_lt_of_le (h.serial u hold) hfollows.serial
    · exact hto

/-- What an engine answers has the registry of the engine, also if it stands for a failure. -/
theorem Tidy.registry_of_answer (h : e.Tidy) (hanswer : (e.answer fs q).1 = .ok t) :
    t.registry = e.registry := by
  have hfollows := h.follows_load fs q
  rw [e.answer_eq fs q] at hanswer
  rcases hload : e.load fs q with ⟨error | u, s⟩ <;> rw [hload] at hanswer hfollows
  · rw [applyPolicy] at hanswer
    split at hanswer <;> cases hanswer
    rfl
  · cases hanswer
    rcases Load.mem_or_registry_of_request hload with hmem | hregistry
    · rcases hfollows.made t hmem with hold | ⟨hmade, -⟩
      · exact h.registry t hold
      · exact hmade.registry
    · exact hregistry

/-- When a request fails, nothing that was being compiled is cached. -/
theorem Tidy.find?_of_failed (h : e.Tidy) (fs : FileSystem) (q : Request) :
    e.answer fs q = e.applyPolicy q.identity
        ((Located.request e.registry fs q e.loading).1.mapError Prod.fst,
          (Located.request e.registry fs q e.loading).2) ∧
      ∀ error (place : IncludeStack),
        (Located.request e.registry fs q e.loading).1 = .error (error, place) →
        ∀ i, q.Begins e.registry fs i ∨ place.contains i = true →
          (e.answer fs q).2.cache.find? i = none := by
  have hclear : Located.Clear e.loading.cache .empty := ⟨fun _ _ ↦ rfl, h.disabled⟩
  have hends : Located.Ends .empty Eq (Located.request e.registry fs q e.loading)
      (e.load fs q) ∧ _ := Located.ends_request q rfl hclear
  obtain ⟨hends, hplace⟩ := hends
  have hcache := (e.applyPolicy_engine q.identity (e.load fs q)).2.1
  rw [← e.answer_eq fs q] at hcache
  rw [hcache, e.answer_eq fs q]
  generalize Located.request e.registry fs q e.loading = out, e.load fs q = out' at *
  cases hends with
  | done hab =>
    cases hab
    exact ⟨rfl, nofun⟩
  | @failed error place after _ _ hclear' =>
    refine ⟨rfl, ?_⟩
    rintro _ _ ⟨⟩ i hi
    have hin : place.contains i = true := hi.elim (hplace _ _ _ rfl i) id
    refine Cache.find?_eq_none.mpr fun t ht ↦ Bool.eq_false_iff.mpr fun hsame ↦ ?_
    have hapart := hclear'.apart t ht
    rw [IncludeStack.contains_of_same hsame, hin] at hapart
    cases hapart

end Engine

/-! ### Sessions -/

namespace Session

/-- Where a cached template of a session comes from: from a request since the engine was last set
up, before which nothing since then had been cached under its identity. Its body is what compiling
the text that stood behind its identity gives if the cached templates stand for what the text
includes. -/
def Origin (first : Session) (commands : List Command) (t : Template) : Prop :=
  ∃ earlier q later, commands = earlier ++ .request q :: later ∧
    (∀ c ∈ later, c.isInit = false) ∧
    (∀ before since, earlier = before ++ since → (∀ c ∈ since, c.isInit = false) →
      (first.after before).engine.cache.find? t.identity = none) ∧
    (first.after (earlier ++ [.request q])).engine.cache.find? t.identity = some t ∧
    ∃ nodes, (first.after earlier).files.nodesOf t.registry t.identity = .ok nodes ∧
      Node.compileAll t.registry
        ((first.after commands).engine.cache.loader t.registry (first.after earlier).files) nodes =
          .ok t.body

/-- A request makes a template: nothing is cached under its identity, and then the template is,
which was made from the files there are. -/
structure Makes (s : Session) (q : Request) (t : Template) : Prop where
  absent : s.engine.cache.find? t.identity = none
  stored : t ∈ (s.step (.request q)).2.engine.cache.templates
  made : t.Made s.engine.registry s.files (s.step (.request q)).2.engine.cache

/-- What is known about a cached template of a session. -/
structure Accounted (first : Session) (commands : List Command) (t : Template) : Prop where
  /-- It is what is cached under its identity, in every spelling of it. -/
  found : ∀ k, (first.after commands).engine.cache.find? k = some t ↔ t.identity.same k = true
  resolved : ∀ identifier, t.identity ≠ .unresolved identifier
  registry : t.registry = (first.after commands).engine.registry
  origin : first.Origin commands t
  /-- It includes the very templates that are cached under their identities. -/
  references : ∀ x ∈ Instruction.referencesOf t.body, ∃ u : Template,
    (first.after commands).engine.cache.find? u.identity = some u ∧
      x = (u.identity, u.serial, u.body)
  /-- It never stood for a request that failed. -/
  genuine : ∀ earlier q later error fallback, commands = earlier ++ .request q :: later →
    ((first.after earlier).engine.load (first.after earlier).files q).1 = .error error →
    ((first.after earlier).engine.answer (first.after earlier).files q).1 = .ok fallback →
    fallback.serial ≠ t.serial

variable {first s : Session} {commands : List Command} {t : Template}

theorem tidy_after (h : s.engine.Tidy) (commands : List Command) :
    (s.after commands).engine.Tidy :=
  engine_after (fun wd o _ e _ ↦ Engine.tidy_ofOptions e.nextSerial wd o)
    (fun _ fs q h ↦ h.answer fs q) h

/-- A serial number that is not given out any more stays so. -/
theorem spent_after (h : s.engine.Tidy) {n : Nat} (hn : s.engine.Spent n)
    (commands : List Command) : (s.after commands).engine.Spent n := by
  refine (engine_after (P := fun e ↦ e.Tidy ∧ e.Spent n) ?_ ?_ ⟨h, hn⟩).2
  · rintro wd o - e ⟨-, hn⟩
    exact ⟨Engine.tidy_ofOptions e.nextSerial wd o, Nat.lt_succ_of_lt hn.lt, nofun⟩
  · rintro e fs q ⟨h, hn⟩
    exact ⟨h.answer fs q, hn.answer h fs q⟩

/-- The cache grows, and the registry stays, until the engine is set up anew. -/
theorem grows_after (h : s.engine.Tidy) (hcommands : ∀ c ∈ commands, c.isInit = false) :
    s.engine.cache.Grows (s.after commands).engine.cache ∧
      (s.after commands).engine.registry = s.engine.registry := by
  refine (engine_after (P := fun e ↦ e.Tidy ∧ s.engine.cache.Grows e.cache ∧
    e.registry = s.engine.registry) ?_ ?_ ⟨h, .refl _, rfl⟩).2
  · intro wd o hmem
    cases hcommands _ hmem
  · rintro e fs q ⟨h, hgrows, hregistry⟩
    refine ⟨h.answer fs q, hgrows.trans (h.follows_answer fs q).grows, ?_⟩
    exact (e.registry_answer fs q).trans hregistry

/-- What a step leaves in the cache was there before it, and the step was no set-up, or the step is
a request that made it. -/
theorem mem_step (h : s.engine.Tidy) {c : Command}
    (ht : t ∈ (s.step c).2.engine.cache.templates) :
    c.isInit = false ∧ t ∈ s.engine.cache.templates ∨ ∃ q, c = .request q ∧ s.Makes q t := by
  rcases s.step_engine c with ⟨wd, o, -, hengine⟩ | ⟨q, rfl, hengine⟩ | ⟨hno, hengine⟩ <;>
    rw [hengine] at ht
  · cases ht
  · have hfollows := h.follows_answer s.files q
    rcases hfollows.made t ht with hold | ⟨hmade, hserial, -⟩
    · exact .inl ⟨rfl, hold⟩
    · exact .inr ⟨q, rfl, h.find?_of_serial_le ht hserial, ht, hmade⟩
  · exact .inl ⟨hno, ht⟩

/-- Every cached template was made by a request since the last set-up. -/
theorem makes_of_mem_after (h : first.engine.Tidy) (hempty : first.engine.cache.templates = [])
    (ht : t ∈ (first.after commands).engine.cache.templates) :
    ∃ earlier q later, commands = earlier ++ .request q :: later ∧
      (∀ c ∈ later, c.isInit = false) ∧ (first.after earlier).Makes q t := by
  induction commands using List.reverseRecOn with
  | nil =>
    rw [after, List.foldl_nil, hempty] at ht
    cases ht
  | append_singleton commands c ih =>
    rw [after_append] at ht
    rcases mem_step (tidy_after h commands) ht with ⟨hno, hold⟩ | ⟨q, rfl, hmakes⟩
    · obtain ⟨earlier, q, later, rfl, hlater, hmakes⟩ := ih hold
      refine ⟨earlier, q, later ++ [c], by simp, fun d hd ↦ ?_, hmakes⟩
      rcases List.mem_append.mp hd with hd | hd
      · exact hlater d hd
      · rwa [List.mem_singleton.mp hd]
    · exact ⟨commands, q, [], rfl, nofun, hmakes⟩

theorem after_request (s : Session) (earlier later : List Command) (q : Request) :
    s.after (earlier ++ .request q :: later) =
      ((s.after earlier).step (.request q)).2.after later :=
  s.after_append earlier (.request q :: later)

/-- Until a template was made, nothing was cached under its identity since the last set-up. -/
theorem Makes.absent_before {earlier before since : List Command} {q : Request}
    (hmakes : (first.after earlier).Makes q t) (h : first.engine.Tidy)
    (hearlier : earlier = before ++ since) (hsince : ∀ c ∈ since, c.isInit = false) :
    (first.after before).engine.cache.find? t.identity = none := by
  have hgrows := (grows_after (tidy_after h before) hsince).1
  rw [← after_append, ← hearlier] at hgrows
  have habsent := Cache.find?_eq_none.mp hmakes.absent
  exact Cache.find?_eq_none.mpr fun u hu ↦ habsent u (hgrows.templates hu)

/-- A cached template was answered by no request that failed. -/
theorem serial_ne_of_failed (h : first.engine.Tidy)
    (ht : t ∈ (first.after commands).engine.cache.templates) {earlier later : List Command}
    {q : Request} {error : Error} {fallback : Template}
    (hcommands : commands = earlier ++ .request q :: later)
    (hfailed : ((first.after earlier).engine.load (first.after earlier).files q).1 = .error error)
    (hanswer : ((first.after earlier).engine.answer (first.after earlier).files q).1 =
      .ok fallback) : fallback.serial ≠ t.serial := by
  have htidy := tidy_after h earlier
  have hnext : ((first.after earlier).step (.request q)).2.engine.Tidy := htidy.answer _ q
  have hspent : ((first.after earlier).step (.request q)).2.engine.Spent fallback.serial :=
    htidy.spent_of_failed hfailed hanswer
  rw [hcommands, after_request] at ht
  exact ((spent_after hnext hspent later).fresh t ht).symm

/-- Every cached template is accounted for. -/
theorem accounted_after (h : first.engine.Tidy) (hempty : first.engine.cache.templates = [])
    (ht : t ∈ (first.after commands).engine.cache.templates) :
    first.Accounted commands t := by
  have htidy := tidy_after h commands
  have henabled := Cache.enabled_of_mem htidy.disabled ht
  obtain ⟨earlier, q, later, hcommands, hlater, hmakes⟩ := makes_of_mem_after h hempty ht
  have hnext : ((first.after earlier).step (.request q)).2.engine.Tidy :=
    (tidy_after h earlier).answer _ q
  -- The templates that its body was compiled with are still there.
  have hgrows := (grows_after hnext hlater).1
  rw [← after_request, ← hcommands] at hgrows
  obtain ⟨nodes, hnodes, hbuilt⟩ := hmakes.made.built
  have hbody := hbuilt _ hgrows henabled htidy.distinct
  rw [← hmakes.made.registry] at hnodes hbody
  refine
    { found := fun k ↦ ⟨fun h ↦ (Cache.mem_of_find? h).2, htidy.distinct.find?_of_mem ht⟩
      resolved := fun identifier hidentity ↦ ?_
      registry := htidy.registry t ht
      origin := ⟨earlier, q, later, hcommands, hlater, fun before since ↦ hmakes.absent_before h,
        ?_, nodes, hnodes, hbody⟩
      references := fun x hx ↦ ?_
      genuine := fun _ _ _ _ _ ↦ serial_ne_of_failed h ht }
  · rw [hidentity] at hnodes
    cases hnodes
  · rw [after_request]
    exact hnext.distinct.find?_of_mem hmakes.stored (Identity.same_self t.identity)
  · obtain ⟨u, hu, heq⟩ := Cache.stores_of_compileAll hbody x hx
    exact ⟨u, htidy.distinct.find?_of_mem hu (Identity.same_self u.identity), heq⟩

/-- Whatever a host program did since it set an engine up, every cached template is accounted for:
it is cached under its identity, it has the registry of the engine, it was made from the text that
stood behind its identity when it was first compiled since the last set-up, and all that it includes
is cached. What a request is answered with has the registry of the engine, too. An answer is what the
policy makes of loading with located failures; if that fails, then neither the template that was
asked for nor any other one on the stack of the failure is cached. -/
theorem cache_accounted (serial : Nat) (workingDirectory : Path) (o : Options) (fs : FileSystem)
    (commands : List Command) :
    let first := start serial workingDirectory o fs
    let s := first.after commands
    (∀ t ∈ s.engine.cache.templates, first.Accounted commands t) ∧
    (∀ q t, (s.engine.answer s.files q).1 = .ok t → t.registry = s.engine.registry) ∧
    ∀ q, s.engine.answer s.files q = s.engine.applyPolicy q.identity
        ((Located.request s.engine.registry s.files q s.engine.loading).1.mapError Prod.fst,
          (Located.request s.engine.registry s.files q s.engine.loading).2) ∧
      ∀ error (place : IncludeStack),
        (Located.request s.engine.registry s.files q s.engine.loading).1 = .error (error, place) →
        ∀ i, q.Begins s.engine.registry s.files i ∨ place.contains i = true →
          (s.engine.answer s.files q).2.cache.find? i = none := by
  intro first s
  have hfirst : first.engine.Tidy := Engine.tidy_ofOptions serial workingDirectory o
  have htidy : s.engine.Tidy := tidy_after hfirst commands
  exact ⟨fun t ht ↦ accounted_after hfirst rfl ht, fun q t ↦ htidy.registry_of_answer,
    fun q ↦ htidy.find?_of_failed s.files q⟩

/-- A file that includes a missing one is not cached, but what it included before is. -/
example : ((start 0 ⟨"/"⟩ .default ⟨[], [(["a"], .file
    "\x7b% include \"b\" %\x7d\x7b% include \"c\" %\x7d".toUTF8), (["b"], .file "x".toUTF8)]⟩).after
    [.request (.file "a")]).engine.cache.templates.map (·.identity) = [.file ⟨"/b"⟩] := by
  decide +kernel

end Session

end Stencil
