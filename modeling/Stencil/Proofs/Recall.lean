import Mathlib.Data.List.DropRight
import Mathlib.Data.Set.Card
import Stencil.Proofs.Provenance

/-!
# What a cache recalls

A cache answers from its history. Since it was last cleared, the first template that was inserted
under an identity stands for this identity; what is counted are the lookups since then, and the
identities of the templates that were inserted since then. A cache that is not enabled recalls
nothing.
-/

namespace Stencil

/-- Identities up to the spelling of paths. -/
def Identity.setoid : Setoid Identity where
  r i j := i.same j = true
  iseqv := ⟨same_self, fun {i j} h ↦ same_comm i j ▸ h, same_trans⟩

namespace Cache

/-- What can be done with a cache. -/
inductive Operation where
  | insert (t : Template)
  | get (identity : Identity)
  | clear

/-! ### Histories -/

namespace Operation

/-- Whether an operation is a clear. -/
def isClear : Operation → Bool
  | .clear => true
  | _ => false

/-- The template that an operation inserts. -/
def inserted? : Operation → Option Template
  | .insert t => some t
  | _ => none

/-- The answer of an operation, if it is a lookup. -/
def lookedUp? : Operation × Option Template → Option (Option Template)
  | (.get _, answer) => some answer
  | _ => none

/-- The templates that were inserted since the last clear, oldest first. -/
def inserted (history : List Operation) : List Template :=
  (history.rtakeWhile fun op ↦ !op.isClear).filterMap inserted?

/-- The first template with an identity that was inserted since the last clear. -/
def firstInserted (history : List Operation) (identity : Identity) : Option Template :=
  (inserted history).find? fun t ↦ t.identity.same identity

/-- What the lookups since the last clear answered, oldest first. -/
def lookups (answered : List (Operation × Option Template)) : List (Option Template) :=
  (answered.rtakeWhile fun e ↦ !e.1.isClear).filterMap lookedUp?

variable {history : List Operation} {answered : List (Operation × Option Template)}
  {identity : Identity} {t : Template}

theorem inserted_concat (op : Operation) : inserted (history ++ [op]) =
    if op.isClear then [] else inserted history ++ op.inserted?.toList := by
  unfold inserted
  rw [List.rtakeWhile_concat]
  cases op <;> simp [isClear, inserted?]

theorem lookups_concat (e : Operation × Option Template) : lookups (answered ++ [e]) =
    if e.1.isClear then [] else lookups answered ++ (lookedUp? e).toList := by
  unfold lookups
  rw [List.rtakeWhile_concat]
  obtain ⟨op, answer⟩ := e
  cases op <;> simp [isClear, lookedUp?]

/-- An insert counts only for an identity that has none yet. -/
theorem firstInserted_concat_insert : firstInserted (history ++ [.insert t]) identity =
    (firstInserted history identity).or (if t.identity.same identity then some t else none) := by
  rw [firstInserted, inserted_concat, if_neg (by simp [isClear]), List.find?_append]
  cases hsame : t.identity.same identity <;> simp [inserted?, firstInserted, hsame]

/-- A lookup inserts nothing. -/
@[simp] theorem firstInserted_concat_get (asked : Identity) :
    firstInserted (history ++ [.get asked]) identity = firstInserted history identity := by
  simp [firstInserted, inserted_concat, isClear, inserted?]

/-- After a clear nothing is inserted. -/
@[simp] theorem firstInserted_concat_clear :
    firstInserted (history ++ [.clear]) identity = none := by
  simp [firstInserted, inserted_concat, isClear]

theorem firstInserted_eq_none : firstInserted history identity = none ↔
    ∀ t ∈ inserted history, t.identity.same identity = false := by
  simp [firstInserted, List.find?_eq_none]

end Operation

/-! ### Runs -/

/-- Do something with a cache; a clear answers nothing. -/
def perform (c : Cache) : Operation → Option Template × Cache
  | .insert t => (some (c.insert t).1, (c.insert t).2)
  | .get identity => c.get identity
  | .clear => (none, c.clear)

/-- The cache after some operations. -/
def after (c : Cache) (history : List Operation) : Cache :=
  history.foldl (fun c op ↦ (c.perform op).2) c

/-- Some operations, each with its answer. -/
def answered (c : Cache) : List Operation → List (Operation × Option Template)
  | [] => []
  | op :: rest => (op, (c.perform op).1) :: (c.perform op).2.answered rest

theorem after_concat (c : Cache) (history : List Operation) (op : Operation) :
    c.after (history ++ [op]) = ((c.after history).perform op).2 := by
  simp [after]

theorem answered_concat (c : Cache) (history : List Operation) (op : Operation) :
    c.answered (history ++ [op]) =
      c.answered history ++ [(op, ((c.after history).perform op).1)] := by
  induction history generalizing c with
  | nil => rfl
  | cons first rest ih => simp [answered, after, ih]

/-- An enabled cache that finds what a history inserted first, and has counted some answers of
lookups. -/
structure Recalls (c : Cache) (history : List Operation) (lookups : List (Option Template)) :
    Prop where
  enabled : c.enabled = true
  distinct : c.Distinct
  find? : ∀ identity, c.find? identity = Operation.firstInserted history identity
  hits : c.hits = lookups.countP Option.isSome
  misses : c.misses = lookups.countP Option.isNone

variable {c : Cache} {history : List Operation} {lookups : List (Option Template)}
  {answered : List (Operation × Option Template)}

theorem recalls_empty : (empty true).Recalls [] [] := ⟨rfl, .nil, fun _ ↦ rfl, rfl, rfl⟩

namespace Recalls

/-- A template is stored if none was inserted under its identity. -/
theorem insert (h : c.Recalls history lookups) (t : Template) :
    (c.insert t).2.Recalls (history ++ [.insert t]) lookups := by
  cases hfind : c.find? t.identity with
  | some stored =>
    rw [insert_of_find?_eq_some h.enabled hfind]
    refine { h with find? := fun identity ↦ ?_ }
    rw [Operation.firstInserted_concat_insert, ← h.find?]
    cases hidentity : c.find? identity with
    | some u => rfl
    | none =>
      have hother : t.identity.same identity = false := by
        by_contra hsame
        rw [Bool.not_eq_false] at hsame
        rw [find?_congr c hsame, hidentity] at hfind
        cases hfind
      rw [hother]
      rfl
  | none =>
    have hnew := find?_eq_none.mp hfind
    have hdistinct := h.distinct.insert t
    rw [insert_of_enabled h.enabled hnew] at hdistinct ⊢
    refine { h with distinct := hdistinct, find? := fun identity ↦ ?_ }
    rw [Operation.firstInserted_concat_insert, ← h.find?, Cache.find?, List.find?_cons]
    cases hsame : t.identity.same identity with
    | false => simp [Cache.find?]
    | true =>
      -- The identities agree, so nothing is stored under this one either.
      have hnone : c.find? identity = none := by rw [← find?_congr c hsame, hfind]
      simp [hnone]

/-- A lookup is counted by its answer. -/
theorem get (h : c.Recalls history lookups) (identity : Identity) :
    (c.get identity).2.Recalls (history ++ [.get identity]) (lookups ++ [(c.get identity).1]) := by
  have hfind (asked : Identity) :
      c.find? asked = Operation.firstInserted (history ++ [.get identity]) asked := by
    rw [Operation.firstInserted_concat_get, h.find?]
  cases hfound : c.find? identity with
  | some t =>
    rw [get_of_find?_eq_some h.enabled hfound]
    exact { h with find? := hfind, hits := by simp [h.hits], misses := by simp [h.misses] }
  | none =>
    rw [get_of_find?_eq_none h.enabled hfound]
    exact { h with find? := hfind, hits := by simp [h.hits], misses := by simp [h.misses] }

/-- A clear forgets all. -/
theorem clear (h : c.Recalls history lookups) : c.clear.Recalls (history ++ [.clear]) [] where
  enabled := h.enabled
  distinct := .nil
  find? identity := by
    rw [Operation.firstInserted_concat_clear]
    rfl
  hits := rfl
  misses := rfl

/-- Every operation is recalled with its answer. -/
theorem perform (h : c.Recalls history (Operation.lookups answered)) (op : Operation) :
    (c.perform op).2.Recalls (history ++ [op])
      (Operation.lookups (answered ++ [(op, (c.perform op).1)])) := by
  rw [Operation.lookups_concat]
  cases op with
  | insert t =>
    have hno : Operation.lookedUp? (.insert t, (c.perform (.insert t)).1) = none := rfl
    rw [if_neg (by simp [Operation.isClear]), hno, Option.toList_none, List.append_nil]
    exact h.insert t
  | get identity => exact h.get identity
  | clear => exact h.clear

end Recalls

/-- An enabled cache recalls its history. -/
theorem recalls_after (history : List Operation) : ((empty true).after history).Recalls history
    (Operation.lookups ((empty true).answered history)) := by
  induction history using List.reverseRecOn with
  | nil => exact recalls_empty
  | append_singleton history op ih =>
    rw [after_concat, answered_concat]
    exact ih.perform op

/-- A cache that is not enabled stays as it is. -/
theorem perform_of_not_enabled (op : Operation) : ((empty false).perform op).2 = empty false := by
  cases op <;> rfl

theorem after_of_not_enabled (history : List Operation) :
    (empty false).after history = empty false := by
  induction history using List.reverseRecOn with
  | nil => rfl
  | append_singleton history op ih => rw [after_concat, ih, perform_of_not_enabled]

/-! ### Entries -/

/-- The identities of some templates, up to the spelling of paths. -/
def identities (templates : List Template) : Set (Quotient Identity.setoid) :=
  {q | ∃ t ∈ templates, Quotient.mk Identity.setoid t.identity = q}

theorem mk_mem_identities {templates : List Template} {identity : Identity} :
    Quotient.mk Identity.setoid identity ∈ identities templates ↔
      ∃ t ∈ templates, t.identity.same identity = true := by
  simp only [identities, Set.mem_ofPred_eq, Quotient.eq]
  rfl

open scoped Classical in
/-- A cache without doubles holds as many templates as identities. -/
theorem Distinct.size_eq_ncard (h : c.Distinct) : c.size = (identities c.templates).ncard := by
  have hnodup : (c.templates.map fun t ↦ Quotient.mk Identity.setoid t.identity).Nodup := by
    apply List.pairwise_map.mpr
    apply h.imp
    intro t u hother hquotient
    rw [Quotient.exact hquotient] at hother
    cases hother
  have hset : identities c.templates =
      ((c.templates.map fun t ↦ Quotient.mk Identity.setoid t.identity).toFinset : Set _) := by
    ext q
    simp [identities]
  rw [hset, Set.ncard_coe_finset, List.toFinset_card_of_nodup hnodup, List.length_map, size]

/-- The stored identities are the inserted ones. -/
theorem Recalls.identities_eq (h : c.Recalls history lookups) :
    identities c.templates = identities (Operation.inserted history) := by
  ext q
  induction q using Quotient.inductionOn with
  | h identity =>
    have hnone := h.find? identity ▸ @find?_eq_none c identity
    rw [Operation.firstInserted_eq_none] at hnone
    rw [mk_mem_identities, mk_mem_identities, ← not_iff_not]
    simpa using hnone.symm

/-- The cache refines its history. Enabled, it answers an insert and a lookup with the template that
was the first one to be inserted since the last clear under this identity, and a lookup with nothing
if there is none; it counts the lookups since then that were answered, those that were not, and the
identities that were inserted. If it is not enabled, an insert answers its own template, a lookup
answers nothing, and nothing is stored or counted. -/
theorem refines_history (history : List Operation) :
    (let c := (empty true).after history
      let lookups := Operation.lookups ((empty true).answered history)
      (∀ t, some (c.insert t).1 =
        Operation.firstInserted (history ++ [.insert t]) t.identity) ∧
      (∀ identity, (c.get identity).1 = Operation.firstInserted history identity) ∧
      c.stats.hits = lookups.countP Option.isSome ∧
      c.stats.misses = lookups.countP Option.isNone ∧
      c.stats.entries = (identities (Operation.inserted history)).ncard) ∧
    let c := (empty false).after history
    (∀ t, (c.insert t).1 = t) ∧ (∀ identity, (c.get identity).1 = none) ∧
      c.size = 0 ∧ c.stats = ⟨0, 0, 0⟩ := by
  refine ⟨?enabled, ?disabled⟩
  case enabled =>
    have h := recalls_after history
    refine ⟨fun t ↦ ?insert, fun identity ↦ ?get, h.hits, h.misses, ?entries⟩
    case insert =>
      rw [Operation.firstInserted_concat_insert, ← h.find?, Identity.same_self, if_pos rfl]
      cases hfind : ((empty true).after history).find? t.identity with
      | some stored => rw [insert_of_find?_eq_some h.enabled hfind]; rfl
      | none => rw [insert_of_enabled h.enabled (find?_eq_none.mp hfind)]; rfl
    case get =>
      rw [← h.find?]
      cases hfind : ((empty true).after history).find? identity with
      | some t => rw [get_of_find?_eq_some h.enabled hfind]
      | none => rw [get_of_find?_eq_none h.enabled hfind]
    case entries =>
      rw [← h.identities_eq]
      exact h.distinct.size_eq_ncard
  case disabled =>
    rw [after_of_not_enabled]
    exact ⟨fun t ↦ rfl, fun identity ↦ rfl, rfl, rfl⟩

end Cache

end Stencil
