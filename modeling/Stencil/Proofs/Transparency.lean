import Stencil.Proofs.Expansion
import Stencil.Proofs.Loading
import Stencil.Proofs.SameBody

/-!
# The cache does not show

Every template in the cache is what its expansion gives under any stack that holds no cached
template. No template that is being compiled is in the cache, so a template that is found there
could have been compiled again with the same outcome: nothing that it includes is being compiled.
-/

namespace Stencil

/-- The second template is what the first one is when it is compiled without a cache. -/
structure Template.Agrees (r : Registry) (t u : Template) : Prop where
  registry : t.registry = r
  identity : t.identity.same u.identity = true
  body : Instruction.SameAll t.body u.body

/-! ### The invariant -/

namespace Loading

section Invariant

variable (r q : Registry) (fs : FileSystem)

/-- No cached template is being compiled, and every cached one is what it would be compiled to anew
if no cached template were being compiled. -/
structure Sound (s : Loading) : Prop where
  apart : s.cache.Apart s.stack
  disabled : s.cache.enabled = false → s.cache.templates = []
  expands : ∀ t ∈ s.cache.templates, ∀ stack, s.cache.Apart stack →
    ∃ u, Expansion.ofIdentity q fs t.identity stack = .ok u ∧ t.Agrees r u

/-- A sound state that loading leads to from a state. -/
structure Leads (s after : Loading) : Prop where
  sound : after.Sound r q fs
  stack : after.stack = s.stack
  enabled : after.cache.enabled = s.cache.enabled
  templates : s.cache.templates ⊆ after.cache.templates

/-- A stack under which a result stays what it is: the one of a state, or, if templates are cached,
any that holds none of them. -/
def Admits (s : Loading) (stack : IncludeStack) : Prop :=
  stack = s.stack ∨ s.cache.enabled = true ∧ s.cache.Apart stack

/-- A state in which an identity has just been entered from another state. -/
structure Entered (start : Loading) (identity : Identity) (s : Loading) : Prop where
  stack : start.stack = ⟨identity :: s.stack.identities⟩
  enabled : start.cache.enabled = s.cache.enabled
  templates : start.cache.templates = s.cache.templates

end Invariant

variable {r q : Registry} {fs : FileSystem} {s start middle after : Loading}
  {identity : Identity} {stack : IncludeStack}

/-- Soundness is about the stored templates, and a smaller stack is no obstacle to it. -/
theorem Sound.of_le (h : s.Sound r q fs)
    (hstack : ∀ i, s.stack.contains i = false → after.stack.contains i = false)
    (henabled : after.cache.enabled = s.cache.enabled)
    (htemplates : after.cache.templates = s.cache.templates) : after.Sound r q fs where
  apart := by
    intro t ht
    exact hstack _ (h.apart t (htemplates ▸ ht))
  disabled := by
    rw [henabled, htemplates]
    exact h.disabled
  expands := by
    unfold Cache.Apart
    rw [htemplates]
    exact h.expands

namespace Leads

theorem refl (h : s.Sound r q fs) : Leads r q fs s s := ⟨h, rfl, rfl, List.Subset.refl _⟩

theorem trans (h : Leads r q fs s middle) (h' : Leads r q fs middle after) :
    Leads r q fs s after :=
  ⟨h'.sound, h'.stack.trans h.stack, h'.enabled.trans h.enabled,
    List.Subset.trans h.templates h'.templates⟩

/-- A step that stores nothing leads to its state. -/
theorem of_eq (h : s.Sound r q fs) (hstack : after.stack = s.stack)
    (henabled : after.cache.enabled = s.cache.enabled)
    (htemplates : after.cache.templates = s.cache.templates) : Leads r q fs s after :=
  ⟨h.of_le (fun _ hi ↦ hstack ▸ hi) henabled htemplates, hstack, henabled,
    htemplates ▸ List.Subset.refl _⟩

theorem admits (h : Leads r q fs s after) (hadmits : after.Admits stack) : s.Admits stack := by
  rcases hadmits with heq | ⟨henabled, hapart⟩
  · exact .inl (heq.trans h.stack)
  · exact .inr ⟨h.enabled ▸ henabled, fun t ht ↦ hapart t (h.templates ht)⟩

end Leads

/-- An admitted stack holds no cached template. -/
theorem Sound.apart_of_admits (h : s.Sound r q fs) (hadmits : s.Admits stack) :
    s.cache.Apart stack := by
  rcases hadmits with rfl | ⟨-, hapart⟩
  · exact h.apart
  · exact hapart

/-- Entering a template that is not cached keeps a state sound. -/
theorem Sound.entered (hs : s.Sound r q fs)
    (hmiss : s.cache.enabled = true → ∀ t ∈ s.cache.templates, t.identity.same identity = false)
    (h : start.Entered identity s) : start.Sound r q fs where
  apart := by
    intro t ht
    rw [h.templates] at ht
    have henabled : s.cache.enabled = true := by
      by_contra hdisabled
      rw [hs.disabled (Bool.not_eq_true _ ▸ hdisabled)] at ht
      cases ht
    rw [h.stack, IncludeStack.contains_cons, Identity.same_comm, hmiss henabled t ht]
    exact hs.apart t ht
  disabled := by
    rw [h.enabled, h.templates]
    exact hs.disabled
  expands := by
    unfold Cache.Apart
    rw [h.templates]
    exact hs.expands

/-- A template that is what it would be compiled to anew can be stored. -/
theorem Sound.stored (hs : s.Sound r q fs) {t : Template} (henabled : s.cache.enabled = true)
    (hfresh : s.stack.contains t.identity = false)
    (hexpands : ∀ stack, Cache.Apart { s.cache with templates := t :: s.cache.templates } stack →
      ∃ u, Expansion.ofIdentity q fs t.identity stack = .ok u ∧ t.Agrees r u) :
    Sound r q fs { s with cache := { s.cache with templates := t :: s.cache.templates } } where
  apart := by
    intro u hu
    rcases List.mem_cons.mp hu with rfl | hold
    · exact hfresh
    · exact hs.apart u hold
  disabled hno := absurd (hno.symm.trans henabled) Bool.noConfusion
  expands := by
    intro u hu stack hstack
    rcases List.mem_cons.mp hu with rfl | hold
    · exact hexpands stack hstack
    · exact hs.expands u hold stack fun v hv ↦ hstack v (List.mem_cons_of_mem _ hv)

/-- Leaving the entered identity leads back to the state that it was entered from. -/
theorem Entered.leads_leave (h : start.Entered identity s) (hleads : Leads r q fs start after) :
    Leads r q fs s { after with stack := after.stack.leave } := by
  have hstack : after.stack = ⟨identity :: s.stack.identities⟩ := hleads.stack.trans h.stack
  have hleave : after.stack.leave = s.stack := by rw [hstack]; rfl
  refine ⟨hleads.sound.of_le ?_ rfl rfl, hleave, hleads.enabled.trans h.enabled, ?_⟩
  · intro i hi
    rw [hstack, IncludeStack.contains_cons, Bool.or_eq_false_iff] at hi
    rw [hleave]
    exact hi.2
  · exact h.templates ▸ hleads.templates

end Loading

/-! ### Loading beside expanding -/

/-- An expansion explains what loading ended with: it fails as loading failed, or gives a related
result under every admitted stack. -/
def Explains {α β : Type} (P : α → β → Prop) (y : Expansion β) :
    Except Error α × Loading → Prop
  | (.ok a, s) => ∀ stack, s.Admits stack → ∃ b, y stack = .ok b ∧ P a b
  | (.error e, s) => y s.stack = .error e

section Comparing

variable (r q : Registry) (fs : FileSystem)

/-- Loading from a sound state leads to a sound state, and an expansion explains how it ends. -/
def cacheComparison (stack : IncludeStack) : Comparison Load Expansion where
  rel P x y := ∀ s, s.stack = stack → s.Sound r q fs →
    Loading.Leads r q fs s (x s).2 ∧ Explains P y (x s)
  rel_pure h _ _ hs := ⟨.refl hs, fun _ _ ↦ ⟨_, rfl, h⟩⟩
  rel_throw _ _ _ hs := ⟨.refl hs, rfl⟩
  rel_bind := by
    intro _ _ _ _ P Q x y f g hxy hfg s hstack hs
    obtain ⟨hleads, hx⟩ := hxy s hstack hs
    rw [Computation.bind_apply]
    rcases hxs : x s with ⟨e | a, middle⟩ <;> rw [hxs] at hleads hx
    · refine ⟨hleads, ?_⟩
      change (y middle.stack).bind _ = .error e
      rw [hx]
      rfl
    · have hmiddle : middle.stack = stack := hleads.stack.trans hstack
      obtain ⟨b, hy, hab⟩ := hx middle.stack (.inl rfl)
      obtain ⟨hthen, hf⟩ := hfg a b hab middle hmiddle hleads.sound
      refine ⟨hleads.trans hthen, ?_⟩
      dsimp only
      rcases hfa : f a middle with ⟨e | c, after⟩ <;> rw [hfa] at hthen hf
      · have hstacks : after.stack = middle.stack := hthen.stack
        change (y after.stack).bind _ = .error e
        rw [hstacks, hy]
        change g b middle.stack = .error e
        rw [← hstacks]
        exact hf
      · intro other hother
        obtain ⟨b', hy', hab'⟩ := hx other (hthen.admits hother)
        have hf' := (hfg a b' hab' middle hmiddle hleads.sound).2
        rw [hfa] at hf'
        obtain ⟨d, hd, hcd⟩ := hf' other hother
        refine ⟨d, ?_, hcd⟩
        change (y other).bind _ = .ok d
        rw [hy']
        exact hd
  rel_map := by
    intro _ _ _ _ P Q x y f g hxy hfg s hstack hs
    obtain ⟨hleads, hx⟩ := hxy s hstack hs
    rw [Computation.map_apply]
    rcases hxs : x s with ⟨e | a, after⟩ <;> rw [hxs] at hleads hx
    · refine ⟨hleads, ?_⟩
      change (y after.stack).map g = .error e
      rw [hx]
      rfl
    · refine ⟨hleads, ?_⟩
      intro other hother
      obtain ⟨b, hy, hab⟩ := hx other hother
      refine ⟨g b, ?_, hfg a b hab⟩
      change (y other).map g = .ok (g b)
      rw [hy]
      rfl

end Comparing

namespace Load

variable {r q : Registry} {fs : FileSystem} {stack : IncludeStack} {identity : Identity}
  {load : String → Load Template} {read : Load String}

/-- What a text is compiled to has the identity it was compiled for, and agrees with what an
expansion compiles it to. -/
private theorem rel_build (hr : r.Alike q) (hpure : r.IsPure) {text : Except Error String}
    (hread : (cacheComparison r q fs stack).rel (fun a b ↦ text = .ok a ∧ a = b) read
      (ofExcept text))
    (hload : ∀ source nodes, text = .ok source → Node.parse q.tagKind? source = .ok nodes →
      ∀ identifier ∈ Node.literalsOf nodes, (cacheComparison r q fs stack).rel
        (Template.Agrees r) (load identifier) (Expansion.file q fs identifier)) :
    (cacheComparison r q fs stack).rel (fun t u ↦ t.identity = identity ∧ t.Agrees r u)
      (read >>= build r load identity)
      ((fun body ↦ ⟨identity, 0, q, body⟩) <$> Expansion.body q (Expansion.file q fs) text) := by
  rw [map_eq_pure_bind, Expansion.body, bind_assoc]
  refine (cacheComparison r q fs stack).rel_bind hread ?_
  rintro source _ ⟨htext, rfl⟩
  rw [build, bind_assoc, ← hr.tagKind]
  refine (cacheComparison r q fs stack).rel_bind (Comparison.rel_ofExcept_self _ _) ?_
  rintro nodes _ ⟨hnodes, rfl⟩
  have hrespects := hpure.respects (T := Template.Agrees r) fun _ _ h ↦ ⟨h.identity, h.body⟩
  refine (cacheComparison r q fs stack).rel_bind (Node.rel_compileAll _ hrespects hr nodes ?_) ?_
  · intro head hhead identifier hliteral
    exact hload source nodes htext hnodes identifier
      (List.mem_filterMap.mpr ⟨head, hhead, hliteral⟩)
  · intro body other hbody s _ hs
    refine ⟨.of_eq hs rfl rfl rfl, fun _ _ ↦ ⟨_, rfl, rfl, rfl, ?_, ?_⟩⟩
    · exact Identity.same_self _
    · exact Instruction.sameAll_iff.mpr hbody

private theorem explains_hit {s : Loading} (hs : s.Sound r q fs) {t : Template}
    (ht : t ∈ s.cache.templates) (hsame : t.identity.same identity = true)
    (hidentity : fs.Holds identity) {other : IncludeStack} (hapart : s.cache.Apart other) :
    ∃ u, Expansion.ofIdentity q fs identity other = .ok u ∧ t.Agrees r u := by
  obtain ⟨u, hu, hagrees⟩ := hs.expands t ht other hapart
  obtain ⟨text, htext⟩ := Expansion.textOf_of_ofIdentity hu
  have htexts := FileSystem.textOf_of_same hsame (FileSystem.holds_of_textOf htext) hidentity
  obtain ⟨v, hv, hidentity', hbody⟩ := Expansion.ofIdentity_of_same hsame htexts hu
  exact ⟨v, hv, hagrees.registry, hidentity' ▸ hsame, hbody ▸ hagrees.body⟩

/-- What was compiled below an identity can be compiled again below any stack that is admitted
after the identity is left. -/
private theorem expands_entered {s start after : Loading} {t : Template}
    (h : start.Entered identity s) (hleads : Loading.Leads r q fs start after)
    (hbuilt : Explains (fun t u ↦ t.identity = identity ∧ t.Agrees r u)
      ((fun body ↦ ⟨identity, 0, q, body⟩) <$>
        Expansion.body q (Expansion.file q fs) (fs.textOf identity)) (.ok t, after))
    {other : IncludeStack} (hfresh : other.contains identity = false)
    (hother : { after with stack := after.stack.leave }.Admits other) :
    ∃ u, Expansion.ofIdentity q fs identity other = .ok u ∧ t.Agrees r u := by
  have hstack : after.stack = ⟨identity :: s.stack.identities⟩ := hleads.stack.trans h.stack
  have hadmits : after.Admits ⟨identity :: other.identities⟩ := by
    rcases hother with rfl | ⟨henabled, hapart⟩
    · rw [hstack]
      exact .inl hstack.symm
    · refine .inr ⟨henabled, fun u hu ↦ ?_⟩
      have hown := hleads.sound.apart u hu
      rw [hstack, IncludeStack.contains_cons, Bool.or_eq_false_iff] at hown
      rw [IncludeStack.contains_cons, hown.1]
      exact hapart u hu
  obtain ⟨u, hu, -, hagrees⟩ := hbuilt _ hadmits
  refine ⟨u, ?_, hagrees⟩
  unfold Expansion.ofIdentity Expansion.template
  rw [IncludeStack.enter_eq_ok.mpr ⟨hfresh, rfl⟩]
  exact hu

/-- Storing what was compiled below an identity leads back to the state that the identity was
entered from, and the expansion of the identity explains what is stored. -/
private theorem stores_entered {s start after : Loading} {t : Template}
    (h : start.Entered identity s) (hleads : Loading.Leads r q fs start after)
    (hfresh : s.stack.contains identity = false)
    (hbuilt : Explains (fun t u ↦ t.identity = identity ∧ t.Agrees r u)
      ((fun body ↦ ⟨identity, 0, q, body⟩) <$>
        Expansion.body q (Expansion.file q fs) (fs.textOf identity)) (.ok t, after))
    {stored : Loading} (hstored : stored =
      { after with stack := after.stack.leave, cache := (after.cache.insert t).2 }) :
    (after.cache.insert t).1 = t ∧ Loading.Leads r q fs s stored ∧
      Explains (Template.Agrees r) (Expansion.ofIdentity q fs identity) (.ok t, stored) := by
  have hleft := h.leads_leave hleads
  have hleave : after.stack.leave = s.stack := hleft.stack
  have hown : t.identity = identity := by
    obtain ⟨_, -, hown, -⟩ := hbuilt after.stack (.inl rfl)
    exact hown
  have hexpands (other : IncludeStack) (hnot : other.contains identity = false)
      (hadmits : { after with stack := after.stack.leave }.Admits other) :
      ∃ u, Expansion.ofIdentity q fs identity other = .ok u ∧ t.Agrees r u :=
    expands_entered h hleads hbuilt hnot hadmits
  cases henabled : after.cache.enabled with
  | false =>
    rw [Cache.insert_of_not_enabled henabled] at hstored ⊢
    subst hstored
    refine ⟨rfl, hleft, fun other hother ↦ ?_⟩
    rcases hother with rfl | ⟨hyes, -⟩
    · exact hexpands _ (hleave ▸ hfresh) (.inl rfl)
    · exact absurd (hyes.symm.trans henabled) Bool.noConfusion
  | true =>
    have hnew : ∀ u ∈ after.cache.templates, u.identity.same t.identity = false := by
      intro u hu
      have hin := hleads.sound.apart u hu
      rw [hleads.stack, h.stack, IncludeStack.contains_cons, Bool.or_eq_false_iff] at hin
      rw [hown, Identity.same_comm]
      exact hin.1
    rw [Cache.insert_of_enabled henabled hnew] at hstored ⊢
    subst hstored
    have hanew (other : IncludeStack)
        (hother : Cache.Apart { after.cache with templates := t :: after.cache.templates } other) :
        ∃ u, Expansion.ofIdentity q fs identity other = .ok u ∧ t.Agrees r u := by
      refine hexpands other ?_ ?_
      · exact hown ▸ hother t List.mem_cons_self
      · exact .inr ⟨henabled, fun u hu ↦ hother u (List.mem_cons_of_mem _ hu)⟩
    have hsound := hleft.sound.stored henabled (hown ▸ hleave ▸ hfresh) (hown ▸ hanew)
    refine ⟨rfl, ⟨hsound, hleave, hleft.enabled, ?_⟩, ?_⟩
    · exact fun u hu ↦ List.mem_cons_of_mem _ (hleft.templates hu)
    · intro other hother
      rcases hother with rfl | ⟨-, hapart⟩
      · exact hexpands _ (hleave ▸ hfresh) (.inl rfl)
      · exact hanew other hapart

/-- The template of an identity is loaded as it is expanded. -/
private theorem rel_template (hidentity : fs.Holds identity)
    (hbuild : ∀ inner, stack.enter identity = .ok inner → (cacheComparison r q fs inner).rel
      (fun t u ↦ t.identity = identity ∧ t.Agrees r u) (read >>= build r load identity)
      ((fun body ↦ ⟨identity, 0, q, body⟩) <$>
        Expansion.body q (Expansion.file q fs) (fs.textOf identity))) :
    (cacheComparison r q fs stack).rel (Template.Agrees r) (template r load identity read)
      (Expansion.ofIdentity q fs identity) := by
  intro s hstack hs
  have hget := Cache.templates_get s.cache identity
  have henabled := Cache.enabled_get s.cache identity
  rw [template_apply]
  rcases Cache.get_cases s.cache identity with
    ⟨t, found, hfound, -, ht, hsame⟩ | ⟨missed, hmissed, hmiss⟩
  · rw [hfound] at hget henabled ⊢
    have hleads : Loading.Leads r q fs s { s with cache := found } := .of_eq hs rfl henabled hget
    refine ⟨hleads, fun other hother ↦ ?_⟩
    exact explains_hit hs ht hsame hidentity (hs.apart_of_admits (hleads.admits hother))
  · rw [hmissed] at hget henabled ⊢
    dsimp only
    cases henter : s.stack.enter identity with
    | error e =>
      refine ⟨.of_eq hs rfl henabled hget, ?_⟩
      change (s.stack.enter identity).bind _ = .error e
      rw [henter]
      rfl
    | ok inner =>
      obtain ⟨hfresh, rfl⟩ := IncludeStack.enter_eq_ok.mp henter
      dsimp only
      generalize hstart : Loading.mk missed ⟨identity :: s.stack.identities⟩ s.nextSerial
        (.entered ⟨identity :: s.stack.identities⟩ :: s.events) = start
      have hentered : start.Entered identity s := by
        subst hstart
        exact ⟨rfl, henabled, hget⟩
      obtain ⟨hleads, hbuilt⟩ := hbuild _ (hstack ▸ henter) start (hstack ▸ hentered.stack)
        (hs.entered hmiss hentered)
      rcases hout : (read >>= build r load identity) start with ⟨e | t, after⟩ <;>
        rw [hout] at hleads hbuilt
      · have hleft := hentered.leads_leave hleads
        have hleave : after.stack.leave = s.stack := hleft.stack
        refine ⟨hleft, ?_⟩
        change (after.stack.leave.enter identity).bind _ = .error e
        rw [hleave, henter, ← hentered.stack, ← hleads.stack]
        exact hbuilt
      · obtain ⟨hvalue, hstored, hexplains⟩ := stores_entered hentered hleads hfresh hbuilt rfl
        dsimp only
        rw [hvalue]
        exact ⟨hstored, hexplains⟩

private theorem rel_readText (path : Path) :
    (cacheComparison r q fs stack).rel (fun a b ↦ fs.textOf (.file path) = .ok a ∧ a = b)
      (readText fs path) (ofExcept (fs.textOf (.file path))) := by
  intro s _ hs
  rw [readText_apply]
  refine ⟨.of_eq hs rfl rfl rfl, ?_⟩
  cases htext : fs.textOf (.file path) with
  | error e => rfl
  | ok text => exact fun _ _ ↦ ⟨text, rfl, rfl, rfl⟩

/-- What the file of a name is loaded to is what it is expanded to, if the depth suffices. -/
private theorem rel_file (hr : r.Alike q) (hpure : r.IsPure) (depth : Nat) (identifier : String)
    (hdepth : fs.Suffices q stack identifier depth) :
    (cacheComparison r q fs stack).rel (Template.Agrees r) (file r fs depth identifier)
      (Expansion.file q fs identifier) := by
  induction depth generalizing identifier stack with
  | zero => exact (FileSystem.not_suffices_zero hdepth).elim
  | succ depth ih =>
    rw [Expansion.file_eq, file, hr.fileAccess, ← hr.roots]
    split
    · refine (cacheComparison r q fs stack).rel_bind (Comparison.rel_ofExcept_self _ _) ?_
      rintro path _ ⟨hpath, rfl⟩
      have hholds : fs.Holds (.file path) := FileSystem.entry_of_resolve hpath
      apply rel_template hholds
      intro inner hinner
      apply rel_build hr hpure (rel_readText path)
      intro source nodes htext hnodes other hother
      apply ih
      exact hdepth.of_enter hpath hinner (Computation.mapError_eq_ok.mp htext) hnodes hother
    · exact (cacheComparison r q fs stack).rel_throw _

/-- What a text is loaded to is what it is expanded to. -/
theorem rel_source (hr : r.Alike q) (hpure : r.IsPure) (source : String) :
    (cacheComparison r q fs stack).rel (Template.Agrees r)
      (template r (file r fs (fs.size + source.utf8ByteSize + 1)) (.source source) (pure source))
      (Expansion.ofIdentity q fs (.source source)) := by
  have hholds : fs.Holds (.source source) := trivial
  apply rel_template hholds
  intro inner _
  apply rel_build hr hpure
  · exact (cacheComparison r q fs inner).rel_pure ⟨rfl, rfl⟩
  · intro text nodes htext hnodes identifier hidentifier
    cases htext
    have hlength := Node.length_literalsOf_le hnodes
    have hpos := List.length_pos_of_mem hidentifier
    apply rel_file hr hpure
    apply Or.inl
    omega

end Load

/-! ### Engines -/

/-- An answer of an engine to a request for which an expansion has an outcome: a template that
agrees, or the failure as the policy wants it. -/
def Answers (r : Registry) (answer : Except Error Template) : Except Error Template → Prop
  | .ok u => ∃ t, answer = .ok t ∧ t.Agrees r u
  | .error e =>
    if r.policy.isStrict || e.kind == .filesUnavailable then answer = .error e
    else ∃ identity serial, answer = .ok (.fallback identity serial r e)

namespace Engine

variable {r q : Registry} {fs : FileSystem} {e : Engine}

private theorem applyPolicy_answers (hregistry : e.registry = r) (hs : e.loading.Sound r q fs)
    (identity : Identity) {x : Load Template} {y : Expansion Template}
    (h : (cacheComparison r q fs .empty).rel (Template.Agrees r) x y) :
    Answers r (e.applyPolicy identity (e.run x)).1 (y .empty) ∧
      (e.applyPolicy identity (e.run x)).2.registry = r ∧
      (e.applyPolicy identity (e.run x)).2.loading.Sound r q fs := by
  obtain ⟨hleads, hexplains⟩ := h e.loading rfl hs
  change Loading.Leads r q fs e.loading (e.run x).2 at hleads
  change Explains _ y (e.run x) at hexplains
  rcases hrun : e.run x with ⟨error | t, after⟩ <;> rw [hrun] at hleads hexplains
  all_goals
    have hstack : after.stack = .empty := hleads.stack
    have hsound (n : Nat) : (e.after { after with nextSerial := n }).loading.Sound r q fs :=
      hleads.sound.of_le (fun _ hi ↦ hstack ▸ hi) rfl rfl
  · have hy : y .empty = .error error := hstack ▸ hexplains
    rw [hy, applyPolicy, hregistry]
    dsimp only [Answers]
    split
    · exact ⟨rfl, hregistry, hsound _⟩
    · exact ⟨⟨_, _, rfl⟩, hregistry, hsound _⟩
  · obtain ⟨u, hy, hagrees⟩ := hexplains .empty (.inl hstack.symm)
    rw [hy]
    exact ⟨⟨t, rfl, hagrees⟩, hregistry, hsound after.nextSerial⟩

/-- An engine answers a request with what the request is expanded to, and stays sound. -/
theorem answer_expands (hregistry : e.registry = r) (hs : e.loading.Sound r q fs)
    (hr : r.Alike q) (hpure : r.IsPure) (request : Request) :
    Answers r (e.answer fs request).1 (Expansion.ofRequest q fs request .empty) ∧
      (e.answer fs request).2.registry = r ∧ (e.answer fs request).2.loading.Sound r q fs := by
  cases request with
  | text source =>
    apply applyPolicy_answers hregistry hs
    rw [hregistry]
    exact Load.rel_source hr hpure source
  | file identifier =>
    apply applyPolicy_answers hregistry hs
    rw [hregistry]
    exact Load.rel_file hr hpure _ identifier (.inl (Nat.le_refl _))

/-- An engine with an empty cache is sound. -/
theorem sound_empty (serial : Nat) (enabled : Bool) :
    (Engine.mk r (.empty enabled) serial).loading.Sound r q fs where
  apart _ ht := nomatch ht
  disabled _ := rfl
  expands _ ht := nomatch ht

/-- An engine stays sound while it answers requests. -/
theorem sound_served (hregistry : e.registry = r) (hs : e.loading.Sound r q fs) (hr : r.Alike q)
    (hpure : r.IsPure) (requests : List Request) :
    (e.served fs requests).registry = r ∧ (e.served fs requests).loading.Sound r q fs := by
  induction requests generalizing e with
  | nil => exact ⟨hregistry, hs⟩
  | cons request rest ih =>
    obtain ⟨-, hnext, hsound⟩ := answer_expands hregistry hs hr hpure request
    exact ih hnext hsound

end Engine

/-! ### Transparency -/

/-- Templates whose bodies render the same, and whose settings are the same, render the same. -/
theorem Template.render_congr {t u : Template}
    (hbody : Instruction.runAll t.body = Instruction.runAll u.body)
    (hpolicy : t.registry.policy = u.registry.policy)
    (hautoescape : t.registry.autoescape = u.registry.autoescape) : t.render = u.render := by
  funext scope calls
  simp only [render, initialState, Body.write, policy, hbody, hpolicy, hautoescape]
  rfl

/-- Two answers to one request are alike under registries with the same settings. -/
private theorem Answers.alike {r r' : Registry} {a b result : Except Error Template}
    (h : Answers r a result) (h' : Answers r' b result) (hpolicy : r.policy = r'.policy)
    (hautoescape : r.autoescape = r'.autoescape) :
    SameOutcome (fun t u ↦ t.render = u.render) a b := by
  cases result with
  | ok u =>
    obtain ⟨t, rfl, ht⟩ := h
    obtain ⟨t', rfl, ht'⟩ := h'
    apply Template.render_congr
    · rw [Instruction.runAll_eq_of_same _ _ ht.body, Instruction.runAll_eq_of_same _ _ ht'.body]
    · rw [ht.registry, ht'.registry, hpolicy]
    · rw [ht.registry, ht'.registry, hautoescape]
  | error e =>
    simp only [Answers, ← hpolicy] at h h'
    split at h
    · next hstrict =>
      rw [if_pos hstrict] at h'
      rw [h, h']
      exact rfl
    · next hlenient =>
      rw [if_neg hlenient] at h'
      obtain ⟨identity, serial, rfl⟩ := h
      obtain ⟨identity', serial', rfl⟩ := h'
      exact Template.render_congr rfl hpolicy hautoescape

end Stencil
