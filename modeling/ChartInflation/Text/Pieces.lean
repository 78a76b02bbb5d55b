/-!
# Pieces of a text

A text cut at every place of a separating character, and the pieces put together again.
-/

set_option autoImplicit false

namespace ChartInflation

/-- The pieces between the separators; there is one more piece than there are separators. -/
def pieces (separator : Char) : List Char → List (List Char)
  | [] => [[]]
  | c :: rest =>
    if c = separator then [] :: pieces separator rest
    else match pieces separator rest with
      | [] => [[c]]
      | piece :: more => (c :: piece) :: more

def piecesOf (separator : Char) (s : String) : List String :=
  (pieces separator s.toList).map String.ofList

theorem pieces_ne_nil (separator : Char) (text : List Char) : pieces separator text ≠ [] := by
  cases text with
  | nil => simp [pieces]
  | cons c rest =>
    unfold pieces
    split
    · simp
    · split <;> simp

/-- Cutting loses nothing: the pieces with the separator between them are the text. -/
theorem intercalate_pieces (separator : Char) (text : List Char) :
    [separator].intercalate (pieces separator text) = text := by
  induction text with
  | nil => simp [pieces, List.intercalate]
  | cons c rest ih =>
    have some := pieces_ne_nil separator rest
    unfold pieces
    split
    · next same =>
      cases cut : pieces separator rest with
      | nil => exact absurd cut some
      | cons piece more => rw [cut] at ih; simp [List.intercalate, same] at ih ⊢; exact ih
    · cases cut : pieces separator rest with
      | nil => exact absurd cut some
      | cons piece more =>
        rw [cut] at ih
        cases more <;> simp [List.intercalate] at ih ⊢ <;> exact ih

def joined (separator : String) : List String → String
  | [] => ""
  | [s] => s
  | s :: rest => s ++ separator ++ joined separator rest

end ChartInflation
