import Stencil.Registry

/-!
# First match

The file of an identifier is the first one among its candidates: the identifier itself if it is an
absolute path, and the identifier seen from every root otherwise. A failure tells why the last
candidate is no file.
-/

namespace Stencil

namespace FileSystem

variable {look : Path → Except FileError Entry} {identifier : String} {last : FileError}
  {attempts : Nat}

/-- Why a path does not lead to a file, where `look` tells what a path leads to. -/
def failure? (look : Path → Except FileError Entry) (path : Path) : Option FileError :=
  match look path with
  | .ok (.file _) => none
  | .ok .directory => some .notFile
  | .error e => some e

/-- There is no failure where a file is. -/
theorem failure?_entry_eq_none {fs : FileSystem} {path : Path} :
    failure? fs.entry path = none ↔ fs.isFile path = true := by
  unfold failure? isFile
  cases fs.entry path with
  | error e => simp
  | ok entry => cases entry <;> simp

/-- The paths that can be the one for an identifier, in the order in which they are tried. -/
def candidates (identifier : String) (roots : List Path) : List Path :=
  if (Path.mk identifier).isAbsolute then [⟨identifier⟩] else roots.map (·.join ⟨identifier⟩)

/-- An absolute identifier is its only candidate. -/
theorem candidates_of_isAbsolute (h : (Path.mk identifier).isAbsolute = true)
    (roots : List Path) : candidates identifier roots = [⟨identifier⟩] := if_pos h

/-- A relative identifier has a candidate under every root. -/
theorem candidates_of_relative (h : (Path.mk identifier).isAbsolute = false)
    (roots : List Path) : candidates identifier roots = roots.map (·.join ⟨identifier⟩) :=
  if_neg (by simp [h])

/-! ### One root after the other -/

/-- A root is left for the rest only with the reason why there is no file under it. -/
theorem resolveFrom_cons (root : Path) (rest : List Path) :
    resolveFrom look identifier last attempts (root :: rest) =
      (failure? look (root.join ⟨identifier⟩)).elim (.ok (root.join ⟨identifier⟩))
        fun e ↦ resolveFrom look identifier e attempts rest := by
  rw [resolveFrom, failure?]
  cases look (root.join ⟨identifier⟩) with
  | error e => rfl
  | ok entry => cases entry <;> rfl

/-- What is found under some roots is the first of the candidates that is a file. -/
theorem toOption_resolveFrom (roots : List Path) :
    (resolveFrom look identifier last attempts roots).toOption =
      (roots.map (·.join ⟨identifier⟩)).find? fun p ↦ (failure? look p).isNone := by
  induction roots generalizing last with
  | nil => rfl
  | cons root rest ih =>
    rw [resolveFrom_cons, List.map_cons, List.find?_cons]
    cases failure? look (root.join ⟨identifier⟩) with
    | none => rfl
    | some e => exact ih

/-- Where no root has the file, the failure of the last one is the cause. -/
theorem resolveFrom_append_singleton {roots : List Path} {final : Path} {e : FileError}
    (h : ∀ root ∈ roots, failure? look (root.join ⟨identifier⟩) ≠ none)
    (hfinal : failure? look (final.join ⟨identifier⟩) = some e) :
    resolveFrom look identifier last attempts (roots ++ [final]) =
      .error (.notFound identifier attempts e) := by
  induction roots generalizing last with
  | nil =>
    rw [List.nil_append, resolveFrom_cons, hfinal]
    rfl
  | cons root rest ih =>
    obtain ⟨hroot, hrest⟩ := List.forall_mem_cons.mp h
    obtain ⟨e', he'⟩ := Option.ne_none_iff_exists'.mp hroot
    rw [List.cons_append, resolveFrom_cons, he']
    exact ih hrest

/-! ### Whole resolutions -/

/-- An absolute identifier is looked for once. -/
theorem resolveBy_of_isAbsolute (h : (Path.mk identifier).isAbsolute = true) (roots : List Path) :
    resolveBy look identifier roots =
      (failure? look ⟨identifier⟩).elim (.ok ⟨identifier⟩)
        fun e ↦ .error (.notFound identifier 1 e) := by
  rw [resolveBy, if_pos h, failure?]
  cases look ⟨identifier⟩ with
  | error e => rfl
  | ok entry => cases entry <;> rfl

/-- A relative identifier is looked for under every root. -/
theorem resolveBy_of_relative (h : (Path.mk identifier).isAbsolute = false) (roots : List Path) :
    resolveBy look identifier roots =
      resolveFrom look identifier (.other "entity not found") roots.length roots :=
  if_neg (by simp [h])

/-- What is found is the first of the candidates that is a file. -/
theorem toOption_resolveBy (roots : List Path) :
    (resolveBy look identifier roots).toOption =
      (candidates identifier roots).find? fun p ↦ (failure? look p).isNone := by
  cases h : (Path.mk identifier).isAbsolute with
  | true =>
    rw [resolveBy_of_isAbsolute h, candidates_of_isAbsolute h, List.find?_singleton]
    cases failure? look ⟨identifier⟩ <;> rfl
  | false => rw [resolveBy_of_relative h, candidates_of_relative h, toOption_resolveFrom]

/-- A path is found exactly if it is the first of the candidates that is a file. -/
theorem resolveBy_eq_ok {roots : List Path} {p : Path} :
    resolveBy look identifier roots = .ok p ↔
      (candidates identifier roots).find? (fun p ↦ (failure? look p).isNone) = some p := by
  rw [← toOption_resolveBy]
  cases resolveBy look identifier roots <;> simp [Except.toOption]

/-- More roots after some give the candidates of those, and maybe more. -/
theorem exists_candidates_append (identifier : String) (roots more : List Path) :
    ∃ rest, candidates identifier (roots ++ more) = candidates identifier roots ++ rest := by
  cases h : (Path.mk identifier).isAbsolute with
  | true =>
    simp only [candidates_of_isAbsolute h]
    exact ⟨[], rfl⟩
  | false =>
    simp only [candidates_of_relative h]
    exact ⟨_, List.map_append⟩

/-- A root under which no file is does not count for what is found. -/
theorem find?_candidates_insert {before after : List Path} {root : Path}
    (h : failure? look (root.join ⟨identifier⟩) ≠ none) :
    (candidates identifier (before ++ root :: after)).find? (fun p ↦ (failure? look p).isNone) =
      (candidates identifier (before ++ after)).find? fun p ↦ (failure? look p).isNone := by
  cases habsolute : (Path.mk identifier).isAbsolute with
  | true => rw [candidates_of_isAbsolute habsolute, candidates_of_isAbsolute habsolute]
  | false =>
    have hroot : (failure? look (root.join ⟨identifier⟩)).isNone = false := by
      simpa [Option.isSome_iff_ne_none] using h
    rw [candidates_of_relative habsolute, candidates_of_relative habsolute, List.map_append,
      List.map_cons, List.map_append, List.find?_append, List.find?_cons, hroot, List.find?_append]

/-- An error has the failure of one of the roots as its cause, if there is a root at all. -/
theorem exists_root_of_resolveBy_eq_error {roots : List Path} {e : Error} (hroots : roots ≠ [])
    (h : resolveBy look identifier roots = .error e) :
    ∃ root ∈ roots, ∃ cause, failure? look (root.join ⟨identifier⟩) = some cause ∧
      e = .notFound identifier (candidates identifier roots).length cause := by
  cases habsolute : (Path.mk identifier).isAbsolute with
  | true =>
    obtain ⟨root, hroot⟩ := List.exists_mem_of_ne_nil roots hroots
    rw [resolveBy_of_isAbsolute habsolute] at h
    refine ⟨root, hroot, ?_⟩
    rw [Path.join_of_isAbsolute habsolute, candidates_of_isAbsolute habsolute]
    cases hfailure : failure? look ⟨identifier⟩ with
    | none =>
      rw [hfailure] at h
      cases h
    | some cause =>
      rw [hfailure] at h
      cases h
      exact ⟨cause, rfl, rfl⟩
  | false =>
    obtain ⟨front, final, rfl⟩ : ∃ front final, roots = front ++ [final] :=
      ⟨_, _, (List.dropLast_concat_getLast hroots).symm⟩
    have hnone : (candidates identifier (front ++ [final])).find?
        (fun p ↦ (failure? look p).isNone) = none := by
      rw [← toOption_resolveBy, h]
      rfl
    rw [candidates_of_relative habsolute] at hnone ⊢
    have hall : ∀ root ∈ front ++ [final], failure? look (root.join ⟨identifier⟩) ≠ none := by
      intro root hroot
      simpa using List.find?_eq_none.mp hnone _ (List.mem_map_of_mem hroot)
    obtain ⟨cause, hcause⟩ := Option.ne_none_iff_exists'.mp (hall final (by simp))
    rw [resolveBy_of_relative habsolute, resolveFrom_append_singleton
      (fun root hroot ↦ hall root (List.mem_append_left _ hroot)) hcause] at h
    cases h
    exact ⟨final, by simp, cause, hcause, by simp⟩

/-- What it means to find the first match: `look` tells what a path leads to, and there is no file
where it has a failure. -/
structure FirstMatch (look : Path → Except FileError Entry)
    (resolve : String → List Path → Except Error Path) : Prop where
  /-- An absolute identifier that is a file is found, whatever the roots are. -/
  absolute : ∀ identifier roots, (Path.mk identifier).isAbsolute = true →
    failure? look ⟨identifier⟩ = none → resolve identifier roots = .ok ⟨identifier⟩
  /-- An absolute identifier that is no file is tried once, whatever the roots are. -/
  absent : ∀ identifier roots e, (Path.mk identifier).isAbsolute = true →
    failure? look ⟨identifier⟩ = some e →
      resolve identifier roots = .error (.notFound identifier 1 e)
  /-- A relative identifier is found under the first root that has it. -/
  first : ∀ identifier before root after, (Path.mk identifier).isAbsolute = false →
    (∀ earlier ∈ before, failure? look (earlier.join ⟨identifier⟩) ≠ none) →
    failure? look (root.join ⟨identifier⟩) = none →
      resolve identifier (before ++ root :: after) = .ok (root.join ⟨identifier⟩)
  /-- A relative identifier that no root has is tried under every root, and the last one tells the
  cause. -/
  missing : ∀ identifier roots final e, (Path.mk identifier).isAbsolute = false →
    (∀ root ∈ roots, failure? look (root.join ⟨identifier⟩) ≠ none) →
    failure? look (final.join ⟨identifier⟩) = some e →
      resolve identifier (roots ++ [final]) = .error (.notFound identifier (roots.length + 1) e)
  /-- Without roots a relative identifier is not tried at all. -/
  rootless : ∀ identifier, (Path.mk identifier).isAbsolute = false →
    resolve identifier [] = .error (.notFound identifier 0 (.other "entity not found"))
  /-- More roots after those there are change no success. -/
  appended : ∀ identifier roots more p, resolve identifier roots = .ok p →
    resolve identifier (roots ++ more) = .ok p
  /-- A root that does not have the identifier changes no success, wherever it stands. -/
  inserted : ∀ identifier before root after p, failure? look (root.join ⟨identifier⟩) ≠ none →
    (resolve identifier (before ++ root :: after) = .ok p ↔
      resolve identifier (before ++ after) = .ok p)
  /-- With the roots of a registry the cause is the failure of one of the roots. -/
  tried : ∀ serial workingDirectory options identifier e,
    let roots := (Registry.ofOptions serial workingDirectory options).roots
    resolve identifier roots = .error e →
      ∃ root ∈ roots, ∃ cause, failure? look (root.join ⟨identifier⟩) = some cause ∧
        e = .notFound identifier (candidates identifier roots).length cause

/-- Resolution finds the first match, whatever paths lead to. -/
theorem firstMatch_resolveBy (look : Path → Except FileError Entry) :
    FirstMatch look (resolveBy look) where
  absolute identifier roots habsolute h := by
    rw [resolveBy_of_isAbsolute habsolute, h]
    rfl
  absent identifier roots e habsolute h := by
    rw [resolveBy_of_isAbsolute habsolute, h]
    rfl
  first identifier before root after hrelative hbefore hroot := by
    have hnone : (before.map (·.join ⟨identifier⟩)).find? (fun p ↦ (failure? look p).isNone) =
        none := by
      simpa using hbefore
    rw [resolveBy_eq_ok, candidates_of_relative hrelative, List.map_append, List.map_cons,
      List.find?_append, hnone, List.find?_cons_of_pos (by simp [hroot]), Option.none_or]
  missing identifier roots final e hrelative hroots hfinal := by
    rw [resolveBy_of_relative hrelative, resolveFrom_append_singleton hroots hfinal]
    simp
  rootless identifier hrelative := resolveBy_of_relative hrelative []
  appended identifier roots more p h := by
    obtain ⟨rest, hrest⟩ := exists_candidates_append identifier roots more
    rw [resolveBy_eq_ok] at h ⊢
    rw [hrest, List.find?_append, h, Option.some_or]
  inserted identifier before root after p h := by
    rw [resolveBy_eq_ok, resolveBy_eq_ok, find?_candidates_insert h]
  tried serial workingDirectory options identifier e :=
    exists_root_of_resolveBy_eq_error (Registry.roots_ofOptions_ne_nil _ _ _)

/-- An identifier resolves to the first match, in file systems as for any other account of what paths
lead to; in a file system there is no failure exactly where a file is. -/
theorem resolve_firstMatch :
    (∀ look, FirstMatch look (resolveBy look)) ∧
    ∀ fs : FileSystem, FirstMatch fs.entry fs.resolve ∧
      ∀ path, failure? fs.entry path = none ↔ fs.isFile path = true :=
  ⟨firstMatch_resolveBy, fun fs ↦ ⟨firstMatch_resolveBy fs.entry, fun _ ↦ failure?_entry_eq_none⟩⟩

/-- The second of three roots holds a file, and the third one a directory of the same name. -/
def fileThenDirectory : FileSystem where
  workingDirectory := []
  entries := [(["b"], .directory), (["b", "x"], .file .empty), (["c"], .directory),
    (["c", "x"], .directory)]

/-- The file of the second root is found, and without it the directory of the third one is blamed. -/
theorem resolve_fileThenDirectory :
    fileThenDirectory.resolve "x" [⟨"/a"⟩, ⟨"/b"⟩, ⟨"/c"⟩] = .ok ⟨"/b/x"⟩ ∧
      fileThenDirectory.resolve "x" [⟨"/a"⟩, ⟨"/c"⟩] = .error (.notFound "x" 2 .notFile) := by
  have hmatch := (resolve_firstMatch.2 fileThenDirectory).1
  have hrelative : (Path.mk "x").isAbsolute = false := by decide +kernel
  have hbefore : ∀ earlier ∈ [Path.mk "/a"],
      failure? fileThenDirectory.entry (earlier.join ⟨"x"⟩) ≠ none := by
    decide +kernel
  constructor
  · exact hmatch.first "x" [⟨"/a"⟩] ⟨"/b"⟩ [⟨"/c"⟩] hrelative hbefore (by decide +kernel)
  · exact hmatch.missing "x" [⟨"/a"⟩] ⟨"/c"⟩ .notFile hrelative hbefore (by decide +kernel)

end FileSystem

end Stencil
