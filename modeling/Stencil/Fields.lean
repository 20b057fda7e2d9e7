/-!
# Named fields

Values under names, kept in ascending order of the names. `find?` is the view: what an operation
does to a list of fields is said by what can be found in it afterwards.
-/

namespace Stencil

/-- Values under names. Every list that `insert` builds from the empty one is in ascending order
of its names, compared by code points, and holds each name once. -/
abbrev Fields (α : Type) := List (String × α)

namespace Fields

variable {α : Type}

/-- The value under a name. -/
def find? (name : String) : Fields α → Option α
  | [] => none
  | (key, value) :: rest => if key = name then some value else find? name rest

/-- Put a value under a name, in place of an earlier one. -/
def insert (name : String) (value : α) : Fields α → Fields α
  | [] => [(name, value)]
  | (key, old) :: rest =>
    if name < key then (name, value) :: (key, old) :: rest
    else if name = key then (name, value) :: rest
    else (key, old) :: insert name value rest

/-- Put every entry of a list into some fields, from left to right. -/
def insertAll (fields : Fields α) (entries : List (String × α)) : Fields α :=
  entries.foldl (fun acc entry => insert entry.1 entry.2 acc) fields

/-- The fields with some entries; a later entry replaces an earlier one of the same name. -/
def ofList (entries : List (String × α)) : Fields α := insertAll [] entries

/-- The names in ascending order. -/
def names (fields : Fields α) : List String := fields.map (·.1)

@[simp] theorem find?_nil (name : String) : find? name ([] : Fields α) = none := rfl

theorem insert_nil (name : String) (value : α) : insert name value [] = [(name, value)] := rfl

/-- A name goes before the first one that is not less, and in its place if it is the same. -/
theorem insert_cons (name key : String) (value old : α) (rest : Fields α) :
    insert name value ((key, old) :: rest) =
      if name < key then (name, value) :: (key, old) :: rest
      else if name = key then (name, value) :: rest
      else (key, old) :: insert name value rest := rfl

/-- After an insertion the name has the new value and every other name what it had. -/
theorem find?_insert (name other : String) (value : α) (fields : Fields α) :
    find? other (insert name value fields) =
      if name = other then some value else find? other fields := by
  induction fields with
  | nil => simp [insert_nil, find?]
  | cons entry rest ih =>
    obtain ⟨key, old⟩ := entry
    rw [insert_cons]
    split
    · simp [find?]
    · split
      · rename_i h
        subst h
        by_cases h : name = other <;> simp [find?, h]
      · rename_i h
        by_cases hk : key = other
        · subst hk
          simp [find?, h]
        · simp [find?, hk, ih]

@[simp] theorem find?_insert_self (name : String) (value : α) (fields : Fields α) :
    find? name (insert name value fields) = some value := by
  simp [find?_insert]

theorem find?_insert_of_ne {name other : String} (h : name ≠ other) (value : α)
    (fields : Fields α) : find? other (insert name value fields) = find? other fields := by
  simp [find?_insert, h]

/-- The names ascend. -/
def Sorted (fields : Fields α) : Prop := fields.Pairwise fun a b => a.1 < b.1

theorem sorted_nil : Sorted ([] : Fields α) := List.Pairwise.nil

/-- An insertion brings in no name but its own. -/
theorem mem_insert {name : String} {value : α} {fields : Fields α} {entry : String × α}
    (h : entry ∈ insert name value fields) : entry = (name, value) ∨ entry ∈ fields := by
  induction fields with
  | nil => simpa [insert_nil] using h
  | cons first rest ih =>
    obtain ⟨key, old⟩ := first
    rw [insert_cons] at h
    split at h
    · simpa using h
    · split at h
      · rcases List.mem_cons.1 h with h | h
        · exact .inl h
        · exact .inr (List.mem_cons_of_mem _ h)
      · rcases List.mem_cons.1 h with h | h
        · exact .inr (h ▸ List.mem_cons_self)
        · rcases ih h with h | h
          · exact .inl h
          · exact .inr (List.mem_cons_of_mem _ h)

/-- An insertion keeps the order of the names. -/
theorem Sorted.insert {fields : Fields α} (h : Sorted fields) (name : String) (value : α) :
    Sorted (Fields.insert name value fields) := by
  induction fields with
  | nil => simp [insert_nil, Sorted]
  | cons first rest ih =>
    obtain ⟨key, old⟩ := first
    have hrest : Sorted rest := List.Pairwise.of_cons h
    have hkey : ∀ e ∈ rest, key < e.1 := fun e he => List.rel_of_pairwise_cons h he
    rw [insert_cons]
    split
    · rename_i hlt
      refine List.Pairwise.cons ?_ h
      intro e he
      rcases List.mem_cons.1 he with rfl | he
      · exact hlt
      · exact String.lt_trans hlt (hkey e he)
    · rename_i hge
      split
      · rename_i heq
        exact List.Pairwise.cons (fun e he => heq ▸ hkey e he) hrest
      · rename_i hne
        refine List.Pairwise.cons ?_ (ih hrest)
        intro e he
        rcases mem_insert he with rfl | he
        · exact Std.lt_of_le_of_ne (String.not_lt.1 hge) fun heq => hne heq.symm
        · exact hkey e he

/-- Fields made from entries are in order. -/
theorem sorted_ofList (entries : List (String × α)) : Sorted (ofList entries) := by
  have key : ∀ (entries : List (String × α)) (fields : Fields α), Sorted fields →
      Sorted (insertAll fields entries) := by
    intro entries
    induction entries with
    | nil => exact fun _ h => h
    | cons entry rest ih => exact fun fields h => ih _ (h.insert entry.1 entry.2)
  exact key entries [] sorted_nil

end Fields

end Stencil
