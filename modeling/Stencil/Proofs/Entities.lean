import Stencil.Proofs.Injection

/-!
# Reading entities back

Every character that HTML escaping replaces has an entity of its own, which begins with an ampersand
and holds no second one. So an escaped text can be read back from left to right: no entity reaches
over into what the next character is written as, even where the text itself spells out an entity.
-/

namespace Stencil

namespace Text

/-- The entities that characters are written as. -/
def entities : List String := ["&amp;", "&lt;", "&gt;", "&quot;", "&#39;"]

/-- Replace the entities in a text by the characters that they stand for, from left to right. An
ampersand that begins none of them stands for itself, as every other character does. -/
def readEntities : List Char → List Char
  | '&' :: 'a' :: 'm' :: 'p' :: ';' :: rest => '&' :: readEntities rest
  | '&' :: 'l' :: 't' :: ';' :: rest => '<' :: readEntities rest
  | '&' :: 'g' :: 't' :: ';' :: rest => '>' :: readEntities rest
  | '&' :: 'q' :: 'u' :: 'o' :: 't' :: ';' :: rest => '"' :: readEntities rest
  | '&' :: '#' :: '3' :: '9' :: ';' :: rest => '\'' :: readEntities rest
  | c :: rest => c :: readEntities rest
  | [] => []

/-- Replace the entities in a text by the characters that they stand for. -/
def unescapeHtml (text : String) : String := String.ofList (readEntities text.toList)

/-- A character is written as an entity, or it is no ampersand and stands for itself. -/
theorem htmlEntity_cases (c : Char) :
    (∃ entity ∈ entities, htmlEntity c = entity.toList) ∨ (c ≠ '&' ∧ htmlEntity c = [c]) := by
  unfold htmlEntity
  split
  · exact .inl ⟨"&amp;", by simp [entities]⟩
  · exact .inl ⟨"&lt;", by simp [entities]⟩
  · exact .inl ⟨"&gt;", by simp [entities]⟩
  · exact .inl ⟨"&quot;", by simp [entities]⟩
  · exact .inl ⟨"&#39;", by simp [entities]⟩
  · next hplain _ _ _ _ => exact .inr ⟨hplain, rfl⟩

/-- The only ampersand of an entity is its first character. -/
theorem exists_eq_cons_of_mem_entities {entity : String} (h : entity ∈ entities) :
    ∃ name, entity.toList = '&' :: name ∧ '&' ∉ name := by
  simp only [entities, List.mem_cons, List.not_mem_nil, or_false] at h
  rcases h with rfl | rfl | rfl | rfl | rfl <;> exact ⟨_, rfl, by decide⟩

/-! ### Reading -/

theorem readEntities_cons {c : Char} (h : c ≠ '&') (rest : List Char) :
    readEntities (c :: rest) = c :: readEntities rest := by
  rw [readEntities] <;> simp [h]

/-- What is written for a character is read as that character, whatever follows. -/
theorem readEntities_htmlEntity_append (c : Char) (rest : List Char) :
    readEntities (htmlEntity c ++ rest) = c :: readEntities rest := by
  unfold htmlEntity
  split
  · rfl
  · rfl
  · rfl
  · rfl
  · rfl
  · next hplain _ _ _ _ => exact readEntities_cons hplain rest

/-- What is written for some characters is read as them. -/
theorem readEntities_flatMap (cs : List Char) : readEntities (cs.flatMap htmlEntity) = cs := by
  induction cs with
  | nil => rfl
  | cons c cs ih => rw [List.flatMap_cons, readEntities_htmlEntity_append, ih]

/-- An escaped text is read back. -/
theorem unescapeHtml_escapeHtml (text : String) : unescapeHtml (escapeHtml text) = text := by
  rw [unescapeHtml, toList_escapeHtml, readEntities_flatMap, String.ofList_toList]

/-- A text that spells out an entity does not become the character of that entity. -/
example : escapeHtml "&lt;" = "&amp;lt;" ∧ unescapeHtml "&amp;lt;" = "&lt;" := by decide +kernel

/-! ### What stands in an escaped text -/

theorem isMark_of_mem_escapeHtml {text : String} {c : Char} (h : c ∈ (escapeHtml text).toList) :
    isMark c = false := by
  have hmarks : (escapeHtml text).toList.filter isMark = [] := marks_escapeHtml text
  simpa using List.filter_eq_nil_iff.mp hmarks c h

/-- An ampersand in what is written for a character begins an entity. -/
private theorem exists_entity_of_htmlEntity_eq {c : Char} {before after : List Char}
    (h : htmlEntity c = before ++ '&' :: after) :
    ∃ entity ∈ entities, entity.toList = '&' :: after := by
  rcases htmlEntity_cases c with ⟨entity, hentity, hc⟩ | ⟨hplain, hself⟩
  · rw [hc] at h
    cases before with
    | nil => exact ⟨entity, hentity, h⟩
    | cons d before =>
      obtain ⟨name, hname, hnone⟩ := exists_eq_cons_of_mem_entities hentity
      rw [hname, List.cons_append] at h
      have hlater : name = before ++ '&' :: after := (List.cons.inj h).2
      simp [hlater] at hnone
  · have hmem : '&' ∈ [c] := by simp [← hself, h]
    exact absurd (List.mem_singleton.mp hmem).symm hplain

/-- An ampersand in what is written for some characters begins an entity. -/
private theorem exists_entity_isPrefix {cs before after : List Char}
    (h : cs.flatMap htmlEntity = before ++ '&' :: after) :
    ∃ entity ∈ entities, entity.toList <+: '&' :: after := by
  induction cs generalizing before with
  | nil => simp at h
  | cons c cs ih =>
    rw [List.flatMap_cons] at h
    -- The ampersand stands behind what is written for the first character, or within it.
    rcases List.append_eq_append_iff.mp h with ⟨later, -, hlater⟩ | ⟨own, hown, hafter⟩
    · exact ih hlater
    · cases own with
      | nil => exact @ih [] hafter.symm
      | cons d own =>
        obtain ⟨rfl, rfl⟩ := List.cons.inj hafter
        obtain ⟨entity, hentity, heq⟩ := exists_entity_of_htmlEntity_eq hown
        exact ⟨entity, hentity, by simp [heq]⟩

/-- HTML escaping loses nothing: an escaped text is read back by replacing entities from left to
right, so that different texts are escaped differently. An escaped text has no mark, and no ampersand
but those that begin an entity; so the block of an error has no angle bracket but those of its outer
tags, whatever the message, and the message is read back from what they enclose. -/
theorem escapeHtml_reversible :
    (∀ text, unescapeHtml (escapeHtml text) = text) ∧
    Function.Injective escapeHtml ∧
    (∀ text, ∀ c ∈ ['<', '>', '"', '\''], c ∉ (escapeHtml text).toList) ∧
    (∀ text before after, (escapeHtml text).toList = before ++ '&' :: after →
      ∃ entity ∈ entities, entity.toList <+: '&' :: after) ∧
    ∀ e : Error, ∃ inner, e.block = "<pre>" ++ inner ++ "</pre>" ∧
      '<' ∉ inner.toList ∧ '>' ∉ inner.toList ∧ unescapeHtml inner = "Error: " ++ e.message := by
  have hmarks : ∀ text, ∀ c ∈ ['<', '>', '"', '\''], c ∉ (escapeHtml text).toList := by
    intro text c hc hmem
    have hplain : isMark c = false := isMark_of_mem_escapeHtml hmem
    have hmark : ['<', '>', '"', '\''].all isMark = true := by decide
    rw [List.all_eq_true.mp hmark c hc] at hplain
    cases hplain
  refine ⟨unescapeHtml_escapeHtml, Function.LeftInverse.injective unescapeHtml_escapeHtml, hmarks,
    ?_, ?_⟩
  · intro text before after h
    rw [toList_escapeHtml] at h
    exact exists_entity_isPrefix h
  · intro e
    -- The words before the message have nothing to escape.
    have hinner : "Error: " ++ escapeHtml e.message = escapeHtml ("Error: " ++ e.message) := by
      rw [escapeHtml_append]
      rfl
    refine ⟨escapeHtml ("Error: " ++ e.message), ?_, hmarks _ _ (by decide), hmarks _ _ (by decide),
      unescapeHtml_escapeHtml _⟩
    rw [← hinner, Error.block, ← String.append_assoc]
    rfl

end Text

end Stencil
