import Flowline.Proofs.Json.Layout
import Flowline.Proofs.Text.Scan
import Flowline.Sandbox.Inline

/-!
# Scripts of inline code

A script is its code between two templates that are filled in. The data and the marker stand in it as
one literal each, and nothing else depends on them.
-/
namespace Flowline.Inline

open Json (IsLiteral isLiteral_quoteChars)

-- The literals of a template are taken for lists of characters first: to compute on these is fast.
set_option maxRecDepth 4000 in
theorem opening_single (l : Language) :
    (Text.piecesFrom payloadSlot.toList 0 (opening l).toList).length = 2 := by
  delta opening payloadSlot
  cases l with
  | python =>
    dsimp only
    change (Text.piecesFrom (String.ofList _).toList 0 (String.ofList _ ++ String.ofList _
      ++ String.ofList _ ++ String.ofList _ ++ String.ofList _ ++ String.ofList _).toList).length = 2
    simp only [String.toList_append, String.toList_ofList]
    decide +kernel
  | javaScript =>
    dsimp only
    change (Text.piecesFrom (String.ofList _).toList 0 (String.ofList _ ++ String.ofList _
      ++ String.ofList _ ++ String.ofList _ ++ String.ofList _).toList).length = 2
    simp only [String.toList_append, String.toList_ofList]
    decide +kernel

set_option maxRecDepth 4000 in
theorem closing_single (l : Language) :
    (Text.piecesFrom markerSlot.toList 0 (closing l).toList).length = 2 := by
  delta closing markerSlot
  cases l with
  | python =>
    dsimp only
    change (Text.piecesFrom (String.ofList _).toList 0 (String.ofList _ ++ String.ofList _
      ++ String.ofList _).toList).length = 2
    simp only [String.toList_append, String.toList_ofList]
    decide +kernel
  | javaScript =>
    dsimp only
    change (Text.piecesFrom (String.ofList _).toList 0 (String.ofList _
      ++ String.ofList _).toList).length = 2
    simp only [String.toList_append, String.toList_ofList]
    decide +kernel

theorem isLiteral_quote (s : String) : IsLiteral (Json.quote s).toList s.toList := by
  rw [Json.Layout.toList_quote]
  exact isLiteral_quoteChars s.toList

/-- What ends the last line of the code. -/
def lineEnd (code : String) : List Char := if code.toList.getLast? = some '\n' then [] else ['\n']

theorem toList_lineEnd (code : String) :
    (if code.endsWith "\n" then "" else "\n").toList = lineEnd code := by
  have hends : code.endsWith "\n" = true ↔ code.toList.getLast? = some '\n' := by
    rw [String.endsWith_eq_endsWith_toSlice, String.Slice.endsWith_string_iff, String.copy_toSlice]
    exact List.singleton_suffix_iff_getLast?_eq_some
  by_cases h : code.toList.getLast? = some '\n'
  · rw [lineEnd, if_pos h, if_pos (hends.mpr h)]
    rfl
  · rw [lineEnd, if_neg h, if_neg (mt hends.mp h)]
    rfl

/-- Both templates have one slot. Whatever the code, the data and the marker are, the script has the
code as it is, with one literal in place of each slot, and is the same around them. -/
theorem wrap_keeps_apart (l : Language) :
    ∃ front back front' back' : List Char,
      (opening l).toList = front ++ payloadSlot.toList ++ back ∧
      (closing l).toList = front' ++ markerSlot.toList ++ back' ∧
      ∀ (code : String) (payload : Value) (marker : String), ∃ data mark : List Char,
        IsLiteral data (Json.compact payload).toList ∧ IsLiteral mark marker.toList ∧
        (wrap l code payload marker).toList =
          (front ++ data ++ back) ++ code.toList ++ lineEnd code ++ (front' ++ mark ++ back') := by
  obtain ⟨front, back, hopening, hfill⟩ := Text.exists_fill (by decide +kernel) (opening_single l)
  obtain ⟨front', back', hclosing, hfill'⟩ := Text.exists_fill (by decide +kernel) (closing_single l)
  refine ⟨front, back, front', back', hopening, hclosing, fun code payload marker => ?_⟩
  refine ⟨_, _, isLiteral_quote _, isLiteral_quote _, ?_⟩
  rw [wrap]
  simp only [String.toList_append, hfill, hfill', toList_lineEnd]

end Flowline.Inline
