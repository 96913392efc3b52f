/-!
# `SchemaAtlas.Text.Lines`: cutting text at a character

Cutting keeps empty pieces, so that joining the pieces with the separator gives the text back.
Line ends of either foreign kind, a carriage return alone or before a line feed, can be made
line feeds.
-/

set_option autoImplicit false

namespace SchemaAtlas.Text

/-- The pieces between occurrences of the separator; there is one more piece than separators. -/
def cutChars (sep : Char) : List Char → List (List Char)
  | [] => [[]]
  | c :: r =>
    if c = sep then [] :: cutChars sep r
    else match cutChars sep r with
      | [] => [[c]]
      | piece :: pieces => (c :: piece) :: pieces

theorem cutChars_ne_nil (sep : Char) (cs : List Char) : cutChars sep cs ≠ [] := by
  cases cs with
  | nil => simp [cutChars]
  | cons c r =>
    simp only [cutChars]
    split
    · simp
    · split <;> simp

/-- Joining the pieces with the separator gives the text back. -/
theorem intercalate_cutChars (sep : Char) (cs : List Char) :
    [sep].intercalate (cutChars sep cs) = cs := by
  induction cs with
  | nil => rfl
  | cons c r ih =>
    simp only [cutChars]
    cases hr : cutChars sep r with
    | nil => exact absurd hr (cutChars_ne_nil sep r)
    | cons piece pieces =>
      rw [hr] at ih
      split
      · rename_i hc
        rw [List.intercalate_cons_cons, ih, hc]
        rfl
      · cases pieces with
        | nil => simp_all [List.intercalate]
        | cons next rest => simp_all [List.intercalate_cons_cons]

/-- The pieces of a text between occurrences of the separator. -/
def cut (sep : Char) (s : String) : List String :=
  (cutChars sep s.toList).map String.ofList

/-- The last piece of a text: what follows the last separator, or all of it. -/
def lastPiece (sep : Char) (s : String) : String :=
  (cut sep s).getLast?.getD ""

/-- Every line end as a line feed. -/
def unifyLineEnds : List Char → List Char
  | [] => []
  | '\r' :: '\n' :: r => '\n' :: unifyLineEnds r
  | c :: r => (if c = '\r' then '\n' else c) :: unifyLineEnds r

/-- The text with every line end as a line feed. -/
def withLineFeeds (s : String) : String :=
  String.ofList (unifyLineEnds s.toList)

end SchemaAtlas.Text
