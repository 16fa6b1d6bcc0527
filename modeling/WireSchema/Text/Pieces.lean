/-!
# Pieces of a text between separators

`pieces '.' "a.b"` is `["a", "b"]`. A text with `n` separators has `n + 1` pieces, some of them
possibly empty; joining them again gives the text (`join_pieces`).
-/

namespace WireSchema.Text

/-- The pieces of `cs` between the occurrences of `sep`. -/
def pieces (sep : Char) : List Char → List (List Char)
  | [] => [[]]
  | c :: cs =>
    if c = sep then [] :: pieces sep cs
    else
      match pieces sep cs with
      | [] => [[c]]
      | p :: ps => (c :: p) :: ps

/-- The pieces with `sep` between each two. -/
def join (sep : Char) : List (List Char) → List Char
  | [] => []
  | [p] => p
  | p :: q :: ps => p ++ sep :: join sep (q :: ps)

theorem pieces_ne_nil (sep : Char) (cs : List Char) : pieces sep cs ≠ [] := by
  cases cs with
  | nil => simp [pieces]
  | cons c cs =>
    unfold pieces
    split
    · simp
    · split <;> simp

theorem join_cons_cons (sep c : Char) (p : List Char) (ps : List (List Char)) :
    join sep ((c :: p) :: ps) = c :: join sep (p :: ps) := by
  cases ps <;> rfl

theorem join_pieces (sep : Char) (cs : List Char) : join sep (pieces sep cs) = cs := by
  induction cs with
  | nil => rfl
  | cons c cs ih =>
    unfold pieces
    split
    · subst c
      cases h : pieces sep cs with
      | nil => exact absurd h (pieces_ne_nil sep cs)
      | cons p ps => rw [h] at ih; rw [join, ih, List.nil_append]
    · cases h : pieces sep cs with
      | nil => exact absurd h (pieces_ne_nil sep cs)
      | cons p ps => rw [h] at ih; simp only [join_cons_cons, ih]

/-- The pieces of a string, as strings. -/
def piecesOf (sep : Char) (s : String) : List String := (pieces sep s.toList).map String.ofList

/-- The piece after the last separator. -/
def lastPiece (sep : Char) (s : String) : String :=
  ((piecesOf sep s).getLast?).getD s

end WireSchema.Text
