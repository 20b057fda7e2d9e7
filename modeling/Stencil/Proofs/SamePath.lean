import Stencil.FileSystem

/-!
# Paths with the same parts

Following a path that leads somewhere goes to the place that its parts describe. So two paths with
the same parts lead to the same entry, whenever both lead to one.
-/

namespace Stencil

namespace Path

/-- The absolute name one part further. -/
def Part.after (place : List String) : Part → List String
  | .root => place
  | .here => place
  | .up => place.dropLast
  | .name s => place ++ [s]

/-- The parts that the segments of a path are. -/
def innerParts (p : Path) : List Part := p.segments.filterMap partOf?

private theorem mem_innerParts {p : Path} {part : Part} (h : part ∈ p.innerParts) :
    part ≠ .root ∧ part ≠ .here := by
  obtain ⟨segment, -, hpart⟩ := List.mem_filterMap.mp h
  unfold partOf? at hpart
  split at hpart
  · simp at hpart
  · split at hpart <;> simp only [Option.some.injEq] at hpart <;> subst hpart <;> simp

theorem parts_eq (p : Path) : p.parts =
    (if p.isAbsolute then [.root] else if p.segments.head? = some "." then [.here] else []) ++
      p.innerParts := by
  unfold parts
  change (if p.isAbsolute then .root :: p.innerParts
    else if p.segments.head? = some "." then .here :: p.innerParts else p.innerParts) = _
  split
  · rfl
  · split <;> rfl

private theorem head?_parts (p : Path) : p.parts.head? = some .root ↔ p.isAbsolute = true := by
  rw [parts_eq]
  cases p.isAbsolute with
  | true => simp
  | false =>
    simp only [Bool.false_eq_true, if_false, iff_false]
    split
    · simp
    · intro h
      exact (mem_innerParts (List.mem_of_mem_head? h)).1 rfl

private theorem filter_parts (p : Path) :
    p.parts.filter (fun part ↦ part ≠ .root ∧ part ≠ .here) = p.innerParts := by
  have hinner : p.innerParts.filter (fun part ↦ part ≠ .root ∧ part ≠ .here) = p.innerParts := by
    apply List.filter_eq_self.mpr
    intro part h
    simpa using mem_innerParts h
  rw [parts_eq, List.filter_append, hinner]
  split
  · simp
  · split <;> simp

/-- Paths with the same parts start at the same place. -/
theorem isAbsolute_of_same {p q : Path} (h : p.same q = true) : p.isAbsolute = q.isAbsolute := by
  have hparts := same_iff.mp h
  apply Bool.eq_iff_iff.mpr
  rw [← head?_parts, ← head?_parts, hparts]

/-- Paths with the same parts have the same parts after their start. -/
theorem innerParts_of_same {p q : Path} (h : p.same q = true) : p.innerParts = q.innerParts := by
  rw [← filter_parts, ← filter_parts, same_iff.mp h]

end Path

namespace FileSystem

variable {fs : FileSystem}

private theorem eq_step_of_follow {place next : List String} {segment : String}
    (h : fs.follow place segment = .ok next) : next = step place segment := by
  unfold follow at h
  unfold step
  split at h
  · simp at h
  · simp at h
  · split at h
    · next hsegment => simp_all
    · next hsegment =>
      rw [if_neg hsegment]
      split at h
      · simp_all
      · next hup =>
        rw [if_neg hup]
        split at h
        · simp at h
        · dsimp only at h
          split at h <;> simp_all

private theorem step_eq_after (place : List String) (segment : String) :
    step place segment = (Path.partOf? segment).elim place (Path.Part.after place) := by
  unfold step Path.partOf?
  split
  · rfl
  · split <;> rfl

private theorem foldl_step (segments : List String) (place : List String) :
    segments.foldl step place = (segments.filterMap Path.partOf?).foldl Path.Part.after place := by
  induction segments generalizing place with
  | nil => rfl
  | cons segment rest ih =>
    rw [List.foldl_cons, ih, step_eq_after, List.filterMap_cons]
    cases Path.partOf? segment <;> rfl

private theorem foldl_of_foldlM (segments : List String) {place next : List String}
    (h : segments.foldlM fs.follow place = .ok next) : next = segments.foldl step place := by
  induction segments generalizing place with
  | nil =>
    cases h
    rfl
  | cons segment rest ih =>
    rw [List.foldlM_cons] at h
    cases hfirst : fs.follow place segment with
    | error e =>
      rw [hfirst] at h
      cases h
    | ok middle =>
      rw [hfirst] at h
      rw [List.foldl_cons, ← eq_step_of_follow hfirst]
      exact ih h

/-- A path that leads somewhere leads to the place that it is meant for. -/
theorem eq_target_of_locate {p : Path} {names : List String} (h : fs.locate p = .ok names) :
    names = fs.target p := by
  unfold locate at h
  split at h
  · cases h
  · split at h
    · cases h
    · split at h
      · cases h
      · exact foldl_of_foldlM _ h

/-- What a path leads to stands at the place that the path is meant for. -/
theorem find?_target {p : Path} {e : Entry} (h : fs.entry p = .ok e) :
    fs.find? (fs.target p) = some e := by
  unfold entry at h
  cases hl : fs.locate p with
  | error error =>
    rw [hl] at h
    cases h
  | ok names =>
    rw [← eq_target_of_locate hl]
    simp only [hl, bind, Except.bind] at h
    cases hf : fs.find? names with
    | none => simp [hf] at h
    | some found =>
      simp only [hf, Except.ok.injEq] at h
      rw [h]

theorem target_of_same {p q : Path} (h : p.same q = true) : fs.target p = fs.target q := by
  have horigin : fs.origin p = fs.origin q := by
    rw [origin, origin, Path.isAbsolute_of_same h]
  rw [target, target, foldl_step, foldl_step, horigin]
  exact congrArg (List.foldl _ _) (Path.innerParts_of_same h)

/-- Two paths with the same parts lead to the same thing if both lead somewhere. -/
theorem entry_of_same {p q : Path} {a b : Entry} (h : p.same q = true) (hp : fs.entry p = .ok a)
    (hq : fs.entry q = .ok b) : a = b := by
  have ha := find?_target hp
  rw [target_of_same h, find?_target hq] at ha
  exact (Option.some.inj ha).symm

/-- The text at a path to a file is the text of its content. -/
theorem readText_of_entry {p : Path} {content : ByteArray} (h : fs.entry p = .ok (.file content)) :
    fs.readText p = match String.fromUTF8? content with
      | some text => .ok text
      | none => .error (.other "stream did not contain valid UTF-8") := by
  unfold readText
  rw [h]
  rfl

/-- Only a file has a text. -/
theorem entry_of_readText {p : Path} {text : String} (h : fs.readText p = .ok text) :
    ∃ content, fs.entry p = .ok (.file content) := by
  unfold readText at h
  cases hentry : fs.entry p with
  | error e =>
    rw [hentry] at h
    cases h
  | ok entry =>
    cases entry with
    | directory =>
      rw [hentry] at h
      cases h
    | file content => exact ⟨content, rfl⟩

/-- Two paths with the same parts give the same text if both lead to a file. -/
theorem readText_of_same {p q : Path} {a b : ByteArray} (h : p.same q = true)
    (hp : fs.entry p = .ok (.file a)) (hq : fs.entry q = .ok (.file b)) :
    fs.readText p = fs.readText q := by
  have hab := entry_of_same h hp hq
  rw [readText_of_entry hp, readText_of_entry hq, Entry.file.inj hab]

private theorem look_of_resolveFrom {look : Path → Except FileError Entry} {identifier : String}
    {last : FileError} {attempts : Nat} {roots : List Path} {p : Path}
    (h : resolveFrom look identifier last attempts roots = .ok p) :
    ∃ content, look p = .ok (.file content) := by
  induction roots generalizing last with
  | nil => cases h
  | cons root rest ih =>
    unfold resolveFrom at h
    dsimp only at h
    split at h
    · next content hentry =>
      cases h
      exact ⟨content, hentry⟩
    · exact ih h
    · exact ih h

/-- A path that is found for an identifier leads to a file. -/
theorem entry_of_resolve {identifier : String} {roots : List Path} {p : Path}
    (h : fs.resolve identifier roots = .ok p) : ∃ content, fs.entry p = .ok (.file content) := by
  unfold resolve resolveBy at h
  split at h
  · split at h
    · next content hentry =>
      cases h
      exact ⟨content, hentry⟩
    · cases h
    · cases h
  · exact look_of_resolveFrom h

end FileSystem

end Stencil
