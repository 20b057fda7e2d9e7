import Stencil.Engine

/-!
# Sessions

What a host program does with one engine over time. It sets the engine up anew, asks for templates,
renders a template that it got earlier, and changes files between these steps.
-/

namespace Stencil

/-- What a template is asked for by. -/
inductive Request where
  /-- Its text. -/
  | text (source : String)
  /-- The identifier of its file. -/
  | file (identifier : String)

/-- The state in which an engine begins to load. -/
def Engine.loading (e : Engine) : Loading := ⟨e.cache, .empty, e.nextSerial, []⟩

/-- Compile what is asked for. -/
def Engine.answer (e : Engine) (fs : FileSystem) : Request → Except Error Template × Engine
  | .text source => e.compile fs source
  | .file identifier => e.compileFile fs identifier

/-- The policy keeps the registry and what loading left in the cache, and uses up serial numbers
only. -/
theorem Engine.applyPolicy_engine (e : Engine) (identity : Identity)
    (out : Except Error Template × Loading) :
    (e.applyPolicy identity out).2.registry = e.registry ∧
      (e.applyPolicy identity out).2.cache = out.2.cache ∧
      out.2.nextSerial ≤ (e.applyPolicy identity out).2.nextSerial := by
  rcases out with ⟨error | t, s⟩
  · rw [applyPolicy]
    dsimp only
    split <;> exact ⟨rfl, rfl, Nat.le_succ _⟩
  · exact ⟨rfl, rfl, Nat.le_refl _⟩

/-- An answer keeps the registry. -/
theorem Engine.registry_answer (e : Engine) (fs : FileSystem) (q : Request) :
    (e.answer fs q).2.registry = e.registry := by
  cases q <;> exact (e.applyPolicy_engine _ _).1

/-- An engine after it has answered some requests. -/
def Engine.served (e : Engine) (fs : FileSystem) : List Request → Engine
  | [] => e
  | q :: rest => (e.answer fs q).2.served fs rest

/-- A step of a host program. -/
inductive Command where
  /-- Set the engine up anew. -/
  | init (workingDirectory : Path) (o : Options)
  /-- Ask for a template. -/
  | request (q : Request)
  /-- Render the template that an earlier request gave; requests are counted from zero. -/
  | render (index : Nat) (scope : Scope)
  /-- Leave other files behind. -/
  | changeFiles (fs : FileSystem)

/-- Whether a step sets the engine up anew. -/
def Command.isInit : Command → Bool
  | .init .. => true
  | _ => false

/-- What a host program learns from a step. -/
inductive Answer where
  | nothing
  | compiled (result : Except Error Template)
  | rendered (output : Except Error String)
  /-- There is no template to render, for the reason that the request failed with, or because there
  was no such request. -/
  | missing (reason : Option Error)

/-- Where a host program stands: its engine and files, what its requests gave, oldest first, and the
calls of extensions so far. -/
structure Session where
  engine : Engine
  files : FileSystem
  results : List (Except Error Template)
  calls : CallLog

namespace Session

/-- The session that begins with a set-up. -/
def start (serial : Nat) (workingDirectory : Path) (o : Options) (fs : FileSystem) : Session :=
  ⟨.ofOptions serial workingDirectory o, fs, [], []⟩

/-- Do one step. -/
def step (s : Session) : Command → Answer × Session
  | .init workingDirectory o =>
    (.nothing, { s with engine := s.engine.init workingDirectory o })
  | .request q =>
    let (result, engine) := s.engine.answer s.files q
    (.compiled result, { s with engine, results := s.results ++ [result] })
  | .render index scope =>
    match s.results[index]? with
    | some (.ok t) =>
      let (output, calls) := t.render scope s.calls
      (.rendered output, { s with calls })
    | some (.error e) => (.missing (some e), s)
    | none => (.missing none, s)
  | .changeFiles fs => (.nothing, { s with files := fs })

/-- What each of some steps answers, with the cache of the engine after it. -/
def trace (s : Session) : List Command → List (Answer × Cache)
  | [] => []
  | c :: rest =>
    let (answer, next) := s.step c
    (answer, next.engine.cache) :: next.trace rest

/-- Where a host program stands after some steps. -/
def after (s : Session) (commands : List Command) : Session :=
  commands.foldl (fun s c ↦ (s.step c).2) s

theorem after_append (s : Session) (earlier later : List Command) :
    s.after (earlier ++ later) = (s.after earlier).after later := List.foldl_append

/-- What a step does to the engine: a set-up replaces it, a request is answered by it, and nothing
else changes it. -/
theorem step_engine (s : Session) (c : Command) :
    (∃ workingDirectory o, c = .init workingDirectory o ∧
      (s.step c).2.engine = s.engine.init workingDirectory o) ∨
    (∃ q, c = .request q ∧ (s.step c).2.engine = (s.engine.answer s.files q).2) ∨
    c.isInit = false ∧ (s.step c).2.engine = s.engine := by
  cases c with
  | init workingDirectory o => exact .inl ⟨workingDirectory, o, rfl, rfl⟩
  | request q => exact .inr (.inl ⟨q, rfl, rfl⟩)
  | render index scope =>
    refine .inr (.inr ⟨rfl, ?_⟩)
    unfold step
    dsimp only
    split <;> rfl
  | changeFiles fs => exact .inr (.inr ⟨rfl, rfl⟩)

/-- What set-ups and answers keep of an engine is kept by all steps. -/
theorem engine_after {P : Engine → Prop} {commands : List Command}
    (hinit : ∀ workingDirectory o, .init workingDirectory o ∈ commands → ∀ e, P e →
      P (e.init workingDirectory o))
    (hanswer : ∀ e fs q, P e → P (e.answer fs q).2) {s : Session} (h : P s.engine) :
    P (s.after commands).engine := by
  induction commands generalizing s with
  | nil => exact h
  | cons c rest ih =>
    refine ih (fun wd o hmem ↦ hinit wd o (List.mem_cons_of_mem _ hmem)) ?_
    rcases s.step_engine c with ⟨wd, o, rfl, hengine⟩ | ⟨q, -, hengine⟩ | ⟨-, hengine⟩ <;>
      rw [hengine]
    · exact hinit wd o List.mem_cons_self s.engine h
    · exact hanswer s.engine s.files q h
    · exact h

end Session

end Stencil
