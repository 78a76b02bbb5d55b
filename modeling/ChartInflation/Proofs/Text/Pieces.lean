import ChartInflation.Text.Pieces

/-!
# Cutting a text and joining it again

Cutting a joined text at its separator gives the pieces it was joined from, if none of them holds the
separator (`pieces_intercalate`).
-/

set_option autoImplicit false

namespace ChartInflation

theorem pieces_append (separator : Char) (text rest : List Char) :
    pieces separator (text ++ separator :: rest) =
      pieces separator text ++ pieces separator rest := by
  induction text with
  | nil => simp [pieces]
  | cons c text ih =>
      by_cases same : c = separator
      · simp [pieces, same, ih]
      · cases cut : pieces separator text with
        | nil => exact absurd cut (pieces_ne_nil separator text)
        | cons piece more => simp [pieces, same, ih, cut]

theorem pieces_of_not_mem {separator : Char} {text : List Char} (none : separator ∉ text) :
    pieces separator text = [text] := by
  induction text with
  | nil => rfl
  | cons c text ih =>
      rw [List.mem_cons, not_or] at none
      simp [pieces, Ne.symm none.1, ih none.2]

/-- What stands in front without a separator belongs to the first piece. -/
theorem pieces_front {separator : Char} {front : List Char} (none : separator ∉ front)
    (text : List Char) : ∃ first more, pieces separator text = first :: more ∧
      pieces separator (front ++ text) = (front ++ first) :: more := by
  induction front with
  | nil =>
      cases cut : pieces separator text with
      | nil => exact absurd cut (pieces_ne_nil separator text)
      | cons first more => exact ⟨first, more, rfl, cut⟩
  | cons c front ih =>
      rw [List.mem_cons, not_or] at none
      obtain ⟨first, more, cut, whole⟩ := ih none.2
      exact ⟨first, more, cut, by simp [pieces, Ne.symm none.1, whole]⟩

theorem pieces_noSeparator {separator : Char} (text : List Char) :
    ∀ piece ∈ pieces separator text, separator ∉ piece := by
  induction text with
  | nil => simp [pieces]
  | cons c text ih =>
      unfold pieces
      split
      · intro piece member
        rcases List.mem_cons.mp member with rfl | later
        · simp
        · exact ih piece later
      next other =>
        cases cut : pieces separator text with
        | nil => exact absurd cut (pieces_ne_nil separator text)
        | cons first more =>
            rw [cut] at ih
            intro piece member
            rcases List.mem_cons.mp member with rfl | later
            · rw [List.mem_cons, not_or]
              exact ⟨Ne.symm other, ih first (List.mem_cons_self ..)⟩
            · exact ih piece (List.mem_cons_of_mem _ later)

theorem pieces_subset {separator : Char} (text : List Char) :
    ∀ piece ∈ pieces separator text, piece ⊆ text := by
  induction text with
  | nil => simp [pieces]
  | cons c text ih =>
      unfold pieces
      split
      · intro piece member
        rcases List.mem_cons.mp member with rfl | later
        · exact List.nil_subset _
        · exact List.subset_cons_of_subset c (ih piece later)
      · cases cut : pieces separator text with
        | nil => exact absurd cut (pieces_ne_nil separator text)
        | cons first more =>
            rw [cut] at ih
            intro piece member
            rcases List.mem_cons.mp member with rfl | later
            · exact List.cons_subset_cons c (ih first (List.mem_cons_self ..))
            · exact List.subset_cons_of_subset c (ih piece (List.mem_cons_of_mem _ later))

theorem pieces_intercalate {separator : Char} {first : List Char} {texts : List (List Char)}
    (none : ∀ text ∈ first :: texts, separator ∉ text) :
    pieces separator ([separator].intercalate (first :: texts)) = first :: texts := by
  induction texts generalizing first with
  | nil =>
      rw [List.intercalate_singleton]
      exact pieces_of_not_mem (none first (List.mem_cons_self ..))
  | cons next texts ih =>
      have cut := ih fun text later => none text (List.mem_cons_of_mem _ later)
      have front := pieces_of_not_mem (none first (List.mem_cons_self ..))
      have text : [separator].intercalate (first :: next :: texts) =
          first ++ separator :: [separator].intercalate (next :: texts) := by
        simp [List.intercalate]
      rw [text, pieces_append, front, cut]
      rfl

theorem piecesOf_append {separator : Char} {s : String} (front rest : String)
    (text : s.toList = front.toList ++ separator :: rest.toList) :
    piecesOf separator s = piecesOf separator front ++ piecesOf separator rest := by
  rw [piecesOf, text, pieces_append, List.map_append, piecesOf, piecesOf]

theorem piecesOf_of_not_mem {separator : Char} {s : String} (none : separator ∉ s.toList) :
    piecesOf separator s = [s] := by
  simp [piecesOf, pieces_of_not_mem none]

theorem piecesOf_noSeparator {separator : Char} {s piece : String}
    (member : piece ∈ piecesOf separator s) : separator ∉ piece.toList := by
  obtain ⟨letters, isPiece, rfl⟩ := List.mem_map.mp member
  rw [String.toList_ofList]
  exact pieces_noSeparator s.toList letters isPiece

/-- The first piece of a text is nothing only if the text is, or begins with the separator. -/
theorem exists_piecesOf (separator : Char) (s : String) : ∃ first more,
    piecesOf separator s = first :: more ∧ (s ≠ "" → first = "" → more ≠ []) := by
  cases cut : pieces separator s.toList with
  | nil => exact absurd cut (pieces_ne_nil separator _)
  | cons letters rest =>
      refine ⟨String.ofList letters, rest.map String.ofList, by rw [piecesOf, cut, List.map_cons], ?_⟩
      intro inhabited empty nothing
      have whole := intercalate_pieces separator s.toList
      rw [cut, List.map_eq_nil_iff.mp nothing, List.intercalate_singleton] at whole
      rw [← String.ofList_toList (s := s), ← whole] at inhabited
      exact inhabited empty

theorem toList_joined (separator : String) (names : List String) :
    (joined separator names).toList = separator.toList.intercalate (names.map String.toList) := by
  induction names with
  | nil => rfl
  | cons name names ih =>
      cases names with
      | nil => simp [joined, List.intercalate]
      | cons next rest => simp [joined, ih, List.intercalate]

theorem piecesOf_joined {separator : Char} {first : String} {names : List String}
    (none : ∀ name ∈ first :: names, separator ∉ name.toList) :
    piecesOf separator (joined (String.ofList [separator]) (first :: names)) = first :: names := by
  have apart : ∀ text ∈ first.toList :: names.map String.toList, separator ∉ text := by
    intro text member
    obtain ⟨name, isIn, rfl⟩ := List.mem_map.mp (List.map_cons ▸ member)
    exact none name isIn
  rw [piecesOf, toList_joined, String.toList_ofList, List.map_cons, pieces_intercalate apart]
  simp [Function.comp_def]

end ChartInflation
