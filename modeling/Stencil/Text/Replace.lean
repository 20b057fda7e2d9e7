/-!
# Replacing a text

Occurrences are found from left to right and do not overlap; what a replacement writes is not
searched again.
-/

namespace Stencil.Text

/-- Drop `pattern` from the front of a text, if it is there. -/
def dropPrefix? : List Char → List Char → Option (List Char)
  | [], cs => some cs
  | _ :: _, [] => none
  | p :: ps, c :: cs => if p = c then dropPrefix? ps cs else none

/-- A text that starts with `pattern` is `pattern` followed by what is left. -/
theorem eq_append_of_dropPrefix? {pattern cs rest : List Char}
    (h : dropPrefix? pattern cs = some rest) : cs = pattern ++ rest := by
  fun_induction dropPrefix? pattern cs with
  | case1 cs => simp_all
  | case2 => simp at h
  | case3 ps p cs ih => simp [ih h]
  | case4 => simp at h

/-- Put `replacement` for every occurrence of `pattern`. An empty pattern occurs nowhere. -/
def replaceAll (pattern replacement : List Char) (cs : List Char) : List Char :=
  match cs with
  | [] => []
  | c :: rest =>
    if _hp : pattern = [] then c :: rest
    else match _h : dropPrefix? pattern (c :: rest) with
      | some after => replacement ++ replaceAll pattern replacement after
      | none => c :: replaceAll pattern replacement rest
termination_by cs.length
decreasing_by
  · have := congrArg List.length (eq_append_of_dropPrefix? _h)
    have : 0 < pattern.length := List.length_pos_iff.2 _hp
    simp_all
  · simp

/-- There is nothing to replace in the empty text. -/
theorem replaceAll_nil (pattern replacement : List Char) :
    replaceAll pattern replacement [] = [] := by
  simp [replaceAll]

end Stencil.Text
